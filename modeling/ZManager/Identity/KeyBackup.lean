import Mathlib.Logic.Encodable.Pi
import Mathlib.Logic.Equiv.List
import Mathlib.Tactic.DeriveEncodable
import ZManager.Foundation.Base64Url
import ZManager.Foundation.Step
import ZManager.Identity.Inventory

/-! # Backups of recipient keys

A backup holds the recipient keys under a random data key, and the data key under a key that is
derived from a password. A new password wraps the same data key again. All bytes travel as
base64url text.
-/

namespace ZManager.Identity

def keyBackupFormatV1 : Text := "v1".toList

def keyBackupKdfAlgoArgon2id : Text := "argon2id".toList

def recipientKeysBackupPayloadFormatV1 : Text := "v1".toList

/-- The costs of the key derivation. -/
structure KeyBackupKdfParams where
  mCostKib : UInt32
  tCost : UInt32
  parallelism : UInt32

def KeyBackupKdfParams.default : KeyBackupKdfParams := ⟨65536, 3, 1⟩

def maxArgon2idMCostKib : UInt32 := 4 * KeyBackupKdfParams.default.mCostKib

def maxArgon2idTCost : UInt32 := 10

def maxArgon2idParallelism : UInt32 := 16

/-- The key derivation of an envelope. -/
structure KeyBackupKdf where
  algorithm : Text
  salt : Text
  params : KeyBackupKdfParams

/-- The data key, sealed with a password. -/
structure WrappedDataKey where
  nonce : Text
  ciphertext : Text

/-- A backup as it is stored. -/
structure KeyBackupEnvelope where
  format : Text
  kdf : KeyBackupKdf
  wrappedDataKeyPassword : WrappedDataKey
  wrappedDataKeyRecovery : Option Json
  nonce : Text
  ciphertext : Text

/-- A recipient key in a backup. -/
structure RecipientKeyBackupEntry where
  keyId : Text
  algorithm : Text
  publicKeyFingerprint : Text
  publicKeyDer : Text
  privateKeyDer : Text
  createdAtUnixSeconds : Nat
  label : Option Text

/-- What a backup seals. -/
structure RecipientKeysBackupPayload where
  format : Text
  keys : List RecipientKeyBackupEntry

/-- Failures of a backup. -/
inductive KeyBackupError where
  | wrongPassword
  | invalidFormat (reason : String)
  | crypto (reason : String)
  | json (reason : String)

/-- What a backup takes from libraries: key derivation with its own check of the parameters,
authenticated encryption with the tag apart, and texts for bytes and payloads. -/
structure KeyBackupLibraries where
  argon2Params : KeyBackupKdfParams → Except String Unit
  argon2id : KeyBackupKdfParams → (password salt : List UInt8) →
    Except String (List.Vector UInt8 32)
  encryptAead : List.Vector UInt8 32 → List.Vector UInt8 12 → List UInt8 →
    Except String (List UInt8 × List.Vector UInt8 16)
  decryptAead : List.Vector UInt8 32 → List.Vector UInt8 12 → (ciphertext tag : List UInt8) →
    Except String (List UInt8)
  /-- The text of OpenSSL's errors when there are none. -/
  errorStack : String
  base64Encode : List UInt8 → Text
  base64Decode : Text → Except String (List UInt8)
  toVec : RecipientKeysBackupPayload → Except String (List UInt8)
  fromSlice : List UInt8 → Except String RecipientKeysBackupPayload

/-! ## Texts and bytes -/

/-- Why an identifier is not valid. -/
inductive TrustIdentifierError where
  | emptyInput
  | invalidLength
  | invalidCharacter

def TrustIdentifierError.debug : TrustIdentifierError → String
  | .emptyInput => "EmptyInput"
  | .invalidLength => "InvalidLength"
  | .invalidCharacter => "InvalidCharacter"

def validateBase64urlNoPadding (value : Text) : Except TrustIdentifierError Unit :=
  if value = [] then .error .emptyInput
  else if (utf8Bytes value).length % 4 = 1 then .error .invalidLength
  else if value.all isBase64UrlChar then .ok ()
  else .error .invalidCharacter

/-- A byte array of a fixed length. -/
def toArray (length : Nat) (bytes : List UInt8) : Option (List.Vector UInt8 length) :=
  if same : bytes.length = length then some ⟨bytes, same⟩ else none

section

variable (libraries : KeyBackupLibraries)

def decodeBase64urlNoPadding (value : Text) : Except String (List UInt8) := do
  (validateBase64urlNoPadding value).mapError TrustIdentifierError.debug
  libraries.base64Decode value

/-- A field of a backup, whose error names it. -/
def decodeBackupField (field : String) (value : Text) : Except KeyBackupError (List UInt8) :=
  (decodeBase64urlNoPadding libraries value).mapError fun error =>
    .invalidFormat ("invalid " ++ field ++ ": " ++ error)

def RecipientKeyBackupEntry.ofRecord (record : RecipientEncryptionKey) :
    RecipientKeyBackupEntry where
  keyId := record.keyId
  algorithm := record.algorithm
  publicKeyFingerprint := record.publicKeyFingerprint
  publicKeyDer := libraries.base64Encode record.publicKeyDer
  privateKeyDer := libraries.base64Encode record.privateKeyDer
  createdAtUnixSeconds := record.createdAtUnixSeconds
  label := record.label

def RecipientKeyBackupEntry.toRecord (entry : RecipientKeyBackupEntry) :
    Except KeyBackupError RecipientEncryptionKey := do
  let publicKeyDer ← decodeBackupField libraries "public_key_der" entry.publicKeyDer
  let privateKeyDer ← decodeBackupField libraries "private_key_der" entry.privateKeyDer
  return ⟨entry.keyId, entry.algorithm, entry.publicKeyFingerprint, publicKeyDer, privateKeyDer,
    entry.createdAtUnixSeconds, entry.label⟩

/-! ## Keys and ciphers -/

def validateKdfResourceLimits (params : KeyBackupKdfParams) : Except KeyBackupError Unit :=
  if params.mCostKib > maxArgon2idMCostKib ∨ params.tCost > maxArgon2idTCost ∨
      params.parallelism > maxArgon2idParallelism then
    .error (.invalidFormat "argon2 parameters exceed supported backup limits")
  else .ok ()

/-- The key that a password yields. -/
def deriveWrappingKey (password : Text) (salt : List UInt8) (params : KeyBackupKdfParams) :
    Except KeyBackupError (List.Vector UInt8 32) := do
  validateKdfResourceLimits params
  (libraries.argon2Params params).mapError fun error =>
    .crypto ("invalid argon2 params: " ++ error)
  (libraries.argon2id params (utf8Bytes password) salt).mapError fun error =>
    .crypto ("argon2 derivation failed: " ++ error)

/-- The ciphertext with its tag behind. -/
def encryptAes256Gcm (key : List.Vector UInt8 32) (nonce : List.Vector UInt8 12)
    (plaintext : List UInt8) : Except KeyBackupError (List UInt8) :=
  match libraries.encryptAead key nonce plaintext with
  | .ok (ciphertext, tag) => .ok (ciphertext ++ tag.toList)
  | .error error => .error (.crypto ("aes-256-gcm encrypt failed: " ++ error))

def decryptAes256Gcm (key : List.Vector UInt8 32) (nonce : List.Vector UInt8 12)
    (combined : List UInt8) : Except String (List UInt8) :=
  if combined.length < 16 then .error libraries.errorStack
  else libraries.decryptAead key nonce (combined.take (combined.length - 16))
    (combined.drop (combined.length - 16))

/-! ## Sealing, unsealing and a new password -/

/-- The random bytes of a new backup. -/
structure SealRandom where
  dataKey : List.Vector UInt8 32
  payloadNonce : List.Vector UInt8 12
  salt : List.Vector UInt8 16
  wrapNonce : List.Vector UInt8 12

/-- Seals the keys under a password. -/
def sealRecipientKeysBackup (keys : List RecipientEncryptionKey) (password : Text)
    (params : Option KeyBackupKdfParams) (random : SealRandom) :
    Except KeyBackupError KeyBackupEnvelope := do
  if password = [] then
    throw (.invalidFormat "password cannot be empty")
  let kdfParams := params.getD .default
  let payload : RecipientKeysBackupPayload :=
    ⟨recipientKeysBackupPayloadFormatV1, keys.map (RecipientKeyBackupEntry.ofRecord libraries)⟩
  let payloadBytes ← (libraries.toVec payload).mapError KeyBackupError.json
  let payloadCiphertext ←
    encryptAes256Gcm libraries random.dataKey random.payloadNonce payloadBytes
  let wrappingKey ← deriveWrappingKey libraries password random.salt.toList kdfParams
  let wrappedDataKeyCiphertext ←
    encryptAes256Gcm libraries wrappingKey random.wrapNonce random.dataKey.toList
  return {
    format := keyBackupFormatV1
    kdf := ⟨keyBackupKdfAlgoArgon2id, libraries.base64Encode random.salt.toList, kdfParams⟩
    wrappedDataKeyPassword := ⟨libraries.base64Encode random.wrapNonce.toList,
      libraries.base64Encode wrappedDataKeyCiphertext⟩
    wrappedDataKeyRecovery := none
    nonce := libraries.base64Encode random.payloadNonce.toList
    ciphertext := libraries.base64Encode payloadCiphertext }

/-- The checks of what a backup says about itself. -/
def KeyBackupEnvelope.checkFormat (envelope : KeyBackupEnvelope) : Except KeyBackupError Unit := do
  if envelope.format ≠ keyBackupFormatV1 then
    throw (.invalidFormat ("unsupported envelope format '" ++ String.ofList envelope.format ++
      "', expected '" ++ String.ofList keyBackupFormatV1 ++ "'"))
  if envelope.kdf.algorithm ≠ keyBackupKdfAlgoArgon2id then
    throw (.invalidFormat ("unsupported kdf algorithm '" ++
      String.ofList envelope.kdf.algorithm ++ "', expected '" ++
      String.ofList keyBackupKdfAlgoArgon2id ++ "'"))

def unsealRecipientKeysBackupPayload (envelope : KeyBackupEnvelope) (password : Text) :
    Except KeyBackupError RecipientKeysBackupPayload := do
  envelope.checkFormat
  let salt ← decodeBackupField libraries "kdf salt" envelope.kdf.salt
  let wrapNonceBytes ← decodeBackupField libraries "wrapped_data_key_password nonce"
    envelope.wrappedDataKeyPassword.nonce
  let some wrapNonce := toArray 12 wrapNonceBytes
    | throw (.invalidFormat ("invalid wrap nonce length " ++ toString wrapNonceBytes.length ++
        ", expected 12"))
  let wrappedDataKey ← decodeBackupField libraries "wrapped_data_key_password ciphertext"
    envelope.wrappedDataKeyPassword.ciphertext
  let wrappingKey ← deriveWrappingKey libraries password salt envelope.kdf.params
  let unwrapped ← (decryptAes256Gcm libraries wrappingKey wrapNonce wrappedDataKey).mapError
    fun _ => KeyBackupError.wrongPassword
  let some dataKey := toArray 32 unwrapped
    | throw (.invalidFormat ("unwrapped data key length " ++ toString unwrapped.length ++
        " invalid, expected 32"))
  let payloadNonceBytes ← decodeBackupField libraries "payload nonce" envelope.nonce
  let some payloadNonce := toArray 12 payloadNonceBytes
    | throw (.invalidFormat ("invalid payload nonce length " ++
        toString payloadNonceBytes.length ++ ", expected 12"))
  let payloadCiphertext ← decodeBackupField libraries "payload ciphertext" envelope.ciphertext
  let payloadBytes ← (decryptAes256Gcm libraries dataKey payloadNonce payloadCiphertext).mapError
    fun error => KeyBackupError.crypto
      ("failed to decrypt payload ciphertext (corrupted or tampered): " ++ error)
  let payload ← (libraries.fromSlice payloadBytes).mapError KeyBackupError.json
  if payload.format ≠ recipientKeysBackupPayloadFormatV1 then
    throw (.invalidFormat ("unsupported payload format '" ++ String.ofList payload.format ++
      "', expected '" ++ String.ofList recipientKeysBackupPayloadFormatV1 ++ "'"))
  return payload

/-- Opens a backup with a password. -/
def unsealRecipientKeysBackup (envelope : KeyBackupEnvelope) (password : Text) :
    Except KeyBackupError (List RecipientEncryptionKey) := do
  let payload ← unsealRecipientKeysBackupPayload libraries envelope password
  payload.keys.mapM (RecipientKeyBackupEntry.toRecord libraries)

/-- A new password, with the parameters and the random bytes for it. -/
structure Rekey where
  newPassword : Text
  newParams : Option KeyBackupKdfParams
  salt : List.Vector UInt8 16
  wrapNonce : List.Vector UInt8 12

/-- Seals the data key under another password. -/
def rekeyBackupEnvelope (envelope : KeyBackupEnvelope) (oldPassword : Text) (rekey : Rekey) :
    Except KeyBackupError KeyBackupEnvelope := do
  if rekey.newPassword = [] then
    throw (.invalidFormat "new password cannot be empty")
  envelope.checkFormat
  let oldSalt ← decodeBackupField libraries "kdf salt" envelope.kdf.salt
  let oldWrapNonceBytes ← decodeBackupField libraries "wrapped_data_key_password nonce"
    envelope.wrappedDataKeyPassword.nonce
  let some oldWrapNonce := toArray 12 oldWrapNonceBytes
    | throw (.invalidFormat "invalid wrap nonce length")
  let wrappedDataKey ← decodeBackupField libraries "wrapped_data_key_password ciphertext"
    envelope.wrappedDataKeyPassword.ciphertext
  let oldWrappingKey ← deriveWrappingKey libraries oldPassword oldSalt envelope.kdf.params
  let unwrapped ← (decryptAes256Gcm libraries oldWrappingKey oldWrapNonce wrappedDataKey).mapError
    fun _ => KeyBackupError.wrongPassword
  let some dataKey := toArray 32 unwrapped
    | throw (.invalidFormat "invalid data key length")
  let kdfParams := rekey.newParams.getD envelope.kdf.params
  let newWrappingKey ← deriveWrappingKey libraries rekey.newPassword rekey.salt.toList kdfParams
  let newWrappedDataKey ←
    encryptAes256Gcm libraries newWrappingKey rekey.wrapNonce dataKey.toList
  return {
    format := envelope.format
    kdf := ⟨keyBackupKdfAlgoArgon2id, libraries.base64Encode rekey.salt.toList, kdfParams⟩
    wrappedDataKeyPassword := ⟨libraries.base64Encode rekey.wrapNonce.toList,
      libraries.base64Encode newWrappedDataKey⟩
    wrappedDataKeyRecovery := envelope.wrappedDataKeyRecovery
    nonce := envelope.nonce
    ciphertext := envelope.ciphertext }

/-- Rekeying with the password that is current; a call that fails changes nothing. -/
def rekeyStep (state : KeyBackupEnvelope × Text) (rekey : Rekey) : KeyBackupEnvelope × Text :=
  match rekeyBackupEnvelope libraries state.1 state.2 rekey with
  | .ok envelope => (envelope, rekey.newPassword)
  | .error _ => state

def rekeyAll (state : KeyBackupEnvelope × Text) (rekeys : List Rekey) : KeyBackupEnvelope × Text :=
  rekeys.foldl (rekeyStep libraries) state

end

/-! ## What is relied on -/

/-- Parameters within the limits of backups and of the library. -/
def KdfAccepted (libraries : KeyBackupLibraries) (params : KeyBackupKdfParams) : Prop :=
  validateKdfResourceLimits params = .ok () ∧ libraries.argon2Params params = .ok ()

/-- Encoded bytes are base64url text and decode to them, payloads are read back, the key
derivation takes the passwords of the set and tells them apart, and a ciphertext is decrypted
with its key and with no other. -/
structure KeyBackupSound (libraries : KeyBackupLibraries) (passwords : Set Text) : Prop where
  encoded : ∀ bytes, bytes ≠ [] →
    validateBase64urlNoPadding (libraries.base64Encode bytes) = .ok ()
  decoded : ∀ bytes, libraries.base64Decode (libraries.base64Encode bytes) = .ok bytes
  derives : ∀ {params password} {salt : List UInt8}, password ∈ passwords →
    libraries.argon2Params params = .ok () → salt.length = 16 →
    ∃ key, libraries.argon2id params (utf8Bytes password) salt = .ok key
  collisionFree : ∀ {params salt one two key}, one ∈ passwords → two ∈ passwords →
    libraries.argon2id params (utf8Bytes one) salt = .ok key →
    libraries.argon2id params (utf8Bytes two) salt = .ok key → one = two
  encrypts : ∀ key nonce plaintext, ∃ ciphertext tag,
    libraries.encryptAead key nonce plaintext = .ok (ciphertext, tag)
  decrypts : ∀ {key nonce plaintext ciphertext tag},
    libraries.encryptAead key nonce plaintext = .ok (ciphertext, tag) →
    libraries.decryptAead key nonce ciphertext tag.toList = .ok plaintext
  authentic : ∀ {key nonce plaintext ciphertext tag other},
    libraries.encryptAead key nonce plaintext = .ok (ciphertext, tag) → other ≠ key →
    ∃ error, libraries.decryptAead other nonce ciphertext tag.toList = .error error
  written : ∀ payload, ∃ bytes, libraries.toVec payload = .ok bytes ∧
    libraries.fromSlice bytes = .ok payload

theorem toArray_toList {length : Nat} (array : List.Vector UInt8 length) :
    toArray length array.toList = some array := by
  unfold toArray
  rw [dif_pos array.toList_length]
  rfl

theorem vector_ne_nil {length : Nat} (array : List.Vector UInt8 (length + 1)) :
    array.toList ≠ [] := by
  intro empty
  have sized := array.toList_length
  rw [empty] at sized
  cases sized

namespace KeyBackupSound

variable {libraries : KeyBackupLibraries} {passwords : Set Text}
  (sound : KeyBackupSound libraries passwords)

include sound

theorem decodeBackupField_encode (field : String) {bytes : List UInt8} (nonempty : bytes ≠ []) :
    decodeBackupField libraries field (libraries.base64Encode bytes) = .ok bytes := by
  unfold decodeBackupField decodeBase64urlNoPadding
  rw [sound.encoded bytes nonempty]
  simp only [Except.mapError, bind, Except.bind, sound.decoded]

/-- A record whose bytes are not empty is read back. -/
theorem toRecord_ofRecord {record : RecipientEncryptionKey} (publicKey : record.publicKeyDer ≠ [])
    (privateKey : record.privateKeyDer ≠ []) :
    RecipientKeyBackupEntry.toRecord libraries (.ofRecord libraries record) = .ok record := by
  unfold RecipientKeyBackupEntry.toRecord RecipientKeyBackupEntry.ofRecord
  rw [sound.decodeBackupField_encode _ publicKey, sound.decodeBackupField_encode _ privateKey]
  rfl

/-- **A ciphertext** opens with its key, and with no other. -/
theorem encryptAes256Gcm_spec (key : List.Vector UInt8 32) (nonce : List.Vector UInt8 12)
    (plaintext : List UInt8) : ∃ combined, combined ≠ [] ∧
      encryptAes256Gcm libraries key nonce plaintext = .ok combined ∧
      decryptAes256Gcm libraries key nonce combined = .ok plaintext ∧
      ∀ other, other ≠ key →
        ∃ error, decryptAes256Gcm libraries other nonce combined = .error error := by
  obtain ⟨ciphertext, tag, encrypted⟩ := sound.encrypts key nonce plaintext
  have decrypt (key : List.Vector UInt8 32) :
      decryptAes256Gcm libraries key nonce (ciphertext ++ tag.toList) =
        libraries.decryptAead key nonce ciphertext tag.toList := by
    unfold decryptAes256Gcm
    have length : (ciphertext ++ tag.toList).length - 16 = ciphertext.length := by
      rw [List.length_append, tag.toList_length, Nat.add_sub_cancel]
    rw [if_neg (by rw [List.length_append, tag.toList_length]; omega), length, List.take_left,
      List.drop_left]
  refine ⟨ciphertext ++ tag.toList, ?_, ?_, ?_, ?_⟩
  · exact List.append_ne_nil_of_right_ne_nil _ (vector_ne_nil tag)
  · unfold encryptAes256Gcm
    rw [encrypted]
  · rw [decrypt, sound.decrypts encrypted]
  · intro other apart
    rw [decrypt]
    exact sound.authentic encrypted apart

theorem deriveWrappingKey_spec {params : KeyBackupKdfParams}
    (accepted : KdfAccepted libraries params) {password : Text} (known : password ∈ passwords)
    (salt : List.Vector UInt8 16) :
    ∃ key, libraries.argon2id params (utf8Bytes password) salt.toList = .ok key ∧
      deriveWrappingKey libraries password salt.toList params = .ok key := by
  obtain ⟨key, derived⟩ := sound.derives known accepted.2 salt.toList_length
  refine ⟨key, derived, ?_⟩
  unfold deriveWrappingKey
  rw [accepted.1, accepted.2, derived]
  rfl

end KeyBackupSound

/-- A key is derived with accepted parameters only. -/
theorem kdfAccepted_of_derive {libraries : KeyBackupLibraries} {password : Text}
    {salt : List UInt8} {params : KeyBackupKdfParams} {key : List.Vector UInt8 32}
    (derived : deriveWrappingKey libraries password salt params = .ok key) :
    KdfAccepted libraries params := by
  unfold deriveWrappingKey at derived
  obtain ⟨_, limits, derived⟩ := Except.bind_eq_ok_iff.mp derived
  obtain ⟨_, library, -⟩ := Except.bind_eq_ok_iff.mp derived
  refine ⟨limits, ?_⟩
  cases checked : libraries.argon2Params params with
  | ok => rfl
  | error error =>
    rw [checked] at library
    cases library

/-! ## Backups -/

/-- A backup whose data key is wrapped under a password. -/
structure KeyBackupEnvelope.Wraps (libraries : KeyBackupLibraries) (envelope : KeyBackupEnvelope)
    (password : Text) (dataKey : List.Vector UInt8 32) : Prop where
  format : envelope.format = keyBackupFormatV1
  algorithm : envelope.kdf.algorithm = keyBackupKdfAlgoArgon2id
  accepted : KdfAccepted libraries envelope.kdf.params
  wrapped : ∃ (salt : List.Vector UInt8 16) (nonce : List.Vector UInt8 12)
    (key : List.Vector UInt8 32) (combined : List UInt8),
    envelope.kdf.salt = libraries.base64Encode salt.toList ∧
    envelope.wrappedDataKeyPassword.nonce = libraries.base64Encode nonce.toList ∧
    envelope.wrappedDataKeyPassword.ciphertext = libraries.base64Encode combined ∧
    libraries.argon2id envelope.kdf.params (utf8Bytes password) salt.toList = .ok key ∧
    encryptAes256Gcm libraries key nonce dataKey.toList = .ok combined

/-- A backup whose payload is encrypted with a data key. -/
def KeyBackupEnvelope.Carries (libraries : KeyBackupLibraries) (envelope : KeyBackupEnvelope)
    (dataKey : List.Vector UInt8 32) (payload : RecipientKeysBackupPayload) : Prop :=
  ∃ (nonce : List.Vector UInt8 12) (bytes combined : List UInt8),
    libraries.toVec payload = .ok bytes ∧
    encryptAes256Gcm libraries dataKey nonce bytes = .ok combined ∧
    envelope.nonce = libraries.base64Encode nonce.toList ∧
    envelope.ciphertext = libraries.base64Encode combined

section

variable {libraries : KeyBackupLibraries} {passwords : Set Text}
  (sound : KeyBackupSound libraries passwords) {envelope : KeyBackupEnvelope} {password : Text}
  {dataKey : List.Vector UInt8 32}

variable {payload : RecipientKeysBackupPayload}

theorem KeyBackupEnvelope.Wraps.checkFormat (wraps : envelope.Wraps libraries password dataKey) :
    envelope.checkFormat = .ok () := by
  unfold KeyBackupEnvelope.checkFormat
  rw [if_neg (not_not.mpr wraps.format), if_neg (not_not.mpr wraps.algorithm)]
  rfl

include sound

/-- **A new password** is refused, or it takes the place of the old one. -/
theorem rekeyBackupEnvelope_eq (wraps : envelope.Wraps libraries password dataKey)
    (known : password ∈ passwords) (rekey : Rekey) :
    rekeyBackupEnvelope libraries envelope password rekey = (do
      if rekey.newPassword = [] then
        throw (.invalidFormat "new password cannot be empty")
      let kdfParams := rekey.newParams.getD envelope.kdf.params
      let newWrappingKey ←
        deriveWrappingKey libraries rekey.newPassword rekey.salt.toList kdfParams
      let newWrappedDataKey ←
        encryptAes256Gcm libraries newWrappingKey rekey.wrapNonce dataKey.toList
      return {
        format := envelope.format
        kdf := ⟨keyBackupKdfAlgoArgon2id, libraries.base64Encode rekey.salt.toList, kdfParams⟩
        wrappedDataKeyPassword := ⟨libraries.base64Encode rekey.wrapNonce.toList,
          libraries.base64Encode newWrappedDataKey⟩
        wrappedDataKeyRecovery := envelope.wrappedDataKeyRecovery
        nonce := envelope.nonce
        ciphertext := envelope.ciphertext }) := by
  obtain ⟨salt, nonce, key, combined, salted, nonced, ciphered, derived, encrypted⟩ :=
    wraps.wrapped
  obtain ⟨combined', some, encrypted', decrypted, -⟩ :=
    sound.encryptAes256Gcm_spec key nonce dataKey.toList
  cases encrypted.symm.trans encrypted'
  obtain ⟨key', derived', wrapping⟩ := sound.deriveWrappingKey_spec wraps.accepted known salt
  cases derived.symm.trans derived'
  unfold rekeyBackupEnvelope
  rw [wraps.checkFormat, salted, nonced, ciphered,
    sound.decodeBackupField_encode _ (vector_ne_nil salt),
    sound.decodeBackupField_encode _ (vector_ne_nil nonce),
    sound.decodeBackupField_encode _ some]
  simp only [bind, Except.bind, toArray_toList, wrapping, decrypted, Except.mapError]

/-- A data key that is wrapped with accepted parameters. -/
theorem exists_wraps {params : KeyBackupKdfParams} (accepted : KdfAccepted libraries params)
    (known : password ∈ passwords) (dataKey : List.Vector UInt8 32) (salt : List.Vector UInt8 16)
    (nonce : List.Vector UInt8 12) :
    ∃ key combined, deriveWrappingKey libraries password salt.toList params = .ok key ∧
      encryptAes256Gcm libraries key nonce dataKey.toList = .ok combined ∧
      ∀ recovery payloadNonce ciphertext, KeyBackupEnvelope.Wraps libraries
        { format := keyBackupFormatV1
          kdf := ⟨keyBackupKdfAlgoArgon2id, libraries.base64Encode salt.toList, params⟩
          wrappedDataKeyPassword := ⟨libraries.base64Encode nonce.toList,
            libraries.base64Encode combined⟩
          wrappedDataKeyRecovery := recovery
          nonce := payloadNonce
          ciphertext } password dataKey := by
  obtain ⟨key, derived, wrapping⟩ := sound.deriveWrappingKey_spec accepted known salt
  obtain ⟨combined, -, encrypted, -⟩ := sound.encryptAes256Gcm_spec key nonce dataKey.toList
  exact ⟨key, combined, wrapping, encrypted, fun _ _ _ => ⟨rfl, rfl, accepted,
    salt, nonce, key, combined, rfl, rfl, rfl, derived, encrypted⟩⟩

/-- A rekey with a password and accepted parameters succeeds. -/
theorem rekeyBackupEnvelope_succeeds (wraps : envelope.Wraps libraries password dataKey)
    (known : password ∈ passwords) {rekey : Rekey} (knownNew : rekey.newPassword ∈ passwords)
    (nonempty : rekey.newPassword ≠ [])
    (accepted : KdfAccepted libraries (rekey.newParams.getD envelope.kdf.params)) :
    ∃ next, rekeyBackupEnvelope libraries envelope password rekey = .ok next := by
  obtain ⟨key, combined, derived, encrypted, -⟩ :=
    exists_wraps sound accepted knownNew dataKey rekey.salt rekey.wrapNonce
  rw [rekeyBackupEnvelope_eq sound wraps known, if_neg nonempty]
  simp only [bind, Except.bind, pure, Except.pure, derived, encrypted]
  exact ⟨_, rfl⟩

/-- **A rekey that succeeds** wraps the same data key, and leaves the payload alone. -/
theorem wraps_of_rekey (wraps : envelope.Wraps libraries password dataKey)
    (known : password ∈ passwords) {rekey : Rekey} (knownNew : rekey.newPassword ∈ passwords)
    {next : KeyBackupEnvelope}
    (rekeyed : rekeyBackupEnvelope libraries envelope password rekey = .ok next) :
    next.Wraps libraries rekey.newPassword dataKey ∧ next.nonce = envelope.nonce ∧
      next.ciphertext = envelope.ciphertext ∧
      next.wrappedDataKeyRecovery = envelope.wrappedDataKeyRecovery := by
  rw [rekeyBackupEnvelope_eq sound wraps known] at rekeyed
  split at rekeyed
  next => cases rekeyed
  next =>
    obtain ⟨key, derived, rekeyed⟩ := Except.bind_eq_ok_iff.mp rekeyed
    obtain ⟨combined, encrypted, rekeyed⟩ := Except.bind_eq_ok_iff.mp rekeyed
    cases rekeyed
    obtain ⟨key', combined', derived', encrypted', always⟩ :=
      exists_wraps sound (kdfAccepted_of_derive derived) knownNew dataKey rekey.salt
        rekey.wrapNonce
    cases derived.symm.trans derived'
    cases encrypted.symm.trans encrypted'
    rw [wraps.format]
    exact ⟨always _ _ _, rfl, rfl, rfl⟩

/-- **A sealed backup** carries the records under a data key that the password opens. -/
theorem sealRecipientKeysBackup_spec (keys : List RecipientEncryptionKey)
    {params : Option KeyBackupKdfParams} (known : password ∈ passwords) (nonempty : password ≠ [])
    (accepted : KdfAccepted libraries (params.getD .default)) (random : SealRandom) :
    ∃ sealed, sealRecipientKeysBackup libraries keys password params random = .ok sealed ∧
      sealed.Wraps libraries password random.dataKey ∧
      sealed.Carries libraries random.dataKey ⟨recipientKeysBackupPayloadFormatV1,
        keys.map (RecipientKeyBackupEntry.ofRecord libraries)⟩ := by
  obtain ⟨bytes, written, -⟩ := sound.written ⟨recipientKeysBackupPayloadFormatV1,
    keys.map (RecipientKeyBackupEntry.ofRecord libraries)⟩
  obtain ⟨payload, -, encrypted, -⟩ :=
    sound.encryptAes256Gcm_spec random.dataKey random.payloadNonce bytes
  obtain ⟨key, combined, derived, wrapped, always⟩ :=
    exists_wraps sound accepted known random.dataKey random.salt random.wrapNonce
  unfold sealRecipientKeysBackup
  rw [if_neg nonempty]
  simp only [bind, Except.bind, pure, Except.pure, written, Except.mapError, encrypted, derived,
    wrapped]
  exact ⟨_, rfl, always _ _ _, random.payloadNonce, bytes, payload, written, encrypted, rfl, rfl⟩

section

variable (wraps : envelope.Wraps libraries password dataKey)
include wraps

/-- The payload is read back with the password. -/
theorem unsealRecipientKeysBackupPayload_of_wraps (known : password ∈ passwords)
    (carries : envelope.Carries libraries dataKey payload)
    (version : payload.format = recipientKeysBackupPayloadFormatV1) :
    unsealRecipientKeysBackupPayload libraries envelope password = .ok payload := by
  obtain ⟨salt, nonce, key, combined, salted, nonced, ciphered, derived, encrypted⟩ :=
    wraps.wrapped
  obtain ⟨combined', some, encrypted', decrypted, -⟩ :=
    sound.encryptAes256Gcm_spec key nonce dataKey.toList
  cases encrypted.symm.trans encrypted'
  obtain ⟨key', derived', wrapping⟩ := sound.deriveWrappingKey_spec wraps.accepted known salt
  cases derived.symm.trans derived'
  obtain ⟨payloadNonce, bytes, sealed, written, locked, payloadNonced, payloadCiphered⟩ := carries
  obtain ⟨sealed', some', locked', opened, -⟩ :=
    sound.encryptAes256Gcm_spec dataKey payloadNonce bytes
  cases locked.symm.trans locked'
  obtain ⟨bytes', written', parsed⟩ := sound.written payload
  cases written.symm.trans written'
  unfold unsealRecipientKeysBackupPayload
  rw [wraps.checkFormat, salted, nonced, ciphered, payloadNonced, payloadCiphered,
    sound.decodeBackupField_encode _ (vector_ne_nil salt),
    sound.decodeBackupField_encode _ (vector_ne_nil nonce),
    sound.decodeBackupField_encode _ some,
    sound.decodeBackupField_encode _ (vector_ne_nil payloadNonce),
    sound.decodeBackupField_encode _ some']
  simp only [bind, Except.bind, pure, Except.pure, toArray_toList, wrapping, decrypted,
    Except.mapError, opened, parsed]
  rw [if_neg (not_not.mpr version)]

/-- **Another password** is a wrong password. -/
theorem unsealRecipientKeysBackup_of_other {other : Text} (known : password ∈ passwords)
    (known' : other ∈ passwords) (apart : other ≠ password) :
    unsealRecipientKeysBackup libraries envelope other = .error .wrongPassword := by
  obtain ⟨salt, nonce, key, combined, salted, nonced, ciphered, derived, encrypted⟩ :=
    wraps.wrapped
  obtain ⟨combined', some, encrypted', -, refused⟩ :=
    sound.encryptAes256Gcm_spec key nonce dataKey.toList
  cases encrypted.symm.trans encrypted'
  obtain ⟨wrong, derived', wrapping⟩ := sound.deriveWrappingKey_spec wraps.accepted known' salt
  obtain ⟨error, failed⟩ := refused wrong fun same =>
    apart (sound.collisionFree known' known (same ▸ derived') derived)
  unfold unsealRecipientKeysBackup unsealRecipientKeysBackupPayload
  rw [wraps.checkFormat, salted, nonced, ciphered,
    sound.decodeBackupField_encode _ (vector_ne_nil salt),
    sound.decodeBackupField_encode _ (vector_ne_nil nonce),
    sound.decodeBackupField_encode _ some]
  simp only [bind, Except.bind, toArray_toList, wrapping, failed, Except.mapError]

/-- **A run of rekeys** keeps the data key and the payload, whatever is asked for. -/
theorem rekeyAll_keeps (carries : envelope.Carries libraries dataKey payload)
    (known : password ∈ passwords) (rekeys : List Rekey)
    (knownAll : ∀ rekey ∈ rekeys, rekey.newPassword ∈ passwords) :
    let (final, last) := rekeyAll libraries (envelope, password) rekeys
    final.Wraps libraries last dataKey ∧ final.Carries libraries dataKey payload ∧
      last ∈ passwords ∧ final.nonce = envelope.nonce ∧ final.ciphertext = envelope.ciphertext ∧
      final.wrappedDataKeyRecovery = envelope.wrappedDataKeyRecovery := by
  induction rekeys generalizing envelope password with
  | nil => exact ⟨wraps, carries, known, rfl, rfl, rfl⟩
  | cons rekey rekeys ih =>
    have later : ∀ other ∈ rekeys, other.newPassword ∈ passwords :=
      fun other member => knownAll other (List.mem_cons_of_mem _ member)
    unfold rekeyAll at ih ⊢
    rw [List.foldl_cons]
    cases rekeyed : rekeyBackupEnvelope libraries envelope password rekey with
    | error failed =>
      rw [show rekeyStep libraries (envelope, password) rekey = (envelope, password) by
        unfold rekeyStep
        rw [rekeyed]]
      exact ih wraps carries known later
    | ok next =>
      rw [show rekeyStep libraries (envelope, password) rekey = (next, rekey.newPassword) by
        unfold rekeyStep
        rw [rekeyed]]
      obtain ⟨wrapped, nonce, ciphertext, recovery⟩ := 
        wraps_of_rekey sound wraps known (knownAll rekey List.mem_cons_self) rekeyed
      have carried : next.Carries libraries dataKey payload := by
        unfold KeyBackupEnvelope.Carries
        rw [nonce, ciphertext]
        exact carries
      have kept := ih wrapped carried (knownAll rekey List.mem_cons_self) later
      rw [nonce, ciphertext, recovery] at kept
      exact kept

end

end

/-- A valid record has the bytes of both keys. -/
theorem nonempty_of_validate {signingKeys : List DeviceSigningKey}
    {record : RecipientEncryptionKey} (valid : record.validate signingKeys = .ok ()) :
    record.publicKeyDer ≠ [] ∧ record.privateKeyDer ≠ [] := by
  unfold RecipientEncryptionKey.validate at valid
  obtain ⟨_, -, valid⟩ := Except.bind_eq_ok_iff.mp valid
  obtain ⟨_, -, valid⟩ := Except.bind_eq_ok_iff.mp valid
  obtain ⟨_, -, valid⟩ := Except.bind_eq_ok_iff.mp valid
  obtain ⟨_, privateKey, valid⟩ := Except.bind_eq_ok_iff.mp valid
  obtain ⟨_, publicKey, -⟩ := Except.bind_eq_ok_iff.mp valid
  constructor
  · rintro empty
    rw [empty] at publicKey
    cases publicKey
  · rintro empty
    rw [empty] at privateKey
    cases privateKey

/-- **Backups survive any number of rekeys.** -/
theorem backups_survive_rekeys {libraries : KeyBackupLibraries} {passwords : Set Text}
    (sound : KeyBackupSound libraries passwords) {signingKeys : List DeviceSigningKey}
    {keys : List RecipientEncryptionKey}
    (valid : ∀ record ∈ keys, record.validate signingKeys = .ok ()) {password : Text}
    (nonempty : password ≠ []) {params : Option KeyBackupKdfParams}
    (accepted : KdfAccepted libraries (params.getD .default)) (random : SealRandom)
    (recovery : Option Json) (rekeys : List Rekey) (known : password ∈ passwords)
    (knownAll : ∀ rekey ∈ rekeys, rekey.newPassword ∈ passwords) :
    ∃ sealed, sealRecipientKeysBackup libraries keys password params random = .ok sealed ∧
      let (final, last) := rekeyAll libraries
        ({ sealed with wrappedDataKeyRecovery := recovery }, password) rekeys
      unsealRecipientKeysBackup libraries final last = .ok keys ∧
      (∀ other ∈ passwords, other ≠ last →
        unsealRecipientKeysBackup libraries final other = .error .wrongPassword) ∧
      final.nonce = sealed.nonce ∧ final.ciphertext = sealed.ciphertext ∧
      final.wrappedDataKeyRecovery = recovery ∧
      ∀ rekey : Rekey, rekey.newPassword ∈ passwords → rekey.newPassword ≠ [] →
        (∀ newParams, rekey.newParams = some newParams → KdfAccepted libraries newParams) →
        ∃ next, rekeyBackupEnvelope libraries final last rekey = .ok next := by
  obtain ⟨sealed, made, wraps, carries⟩ :=
    sealRecipientKeysBackup_spec sound keys known nonempty accepted random
  refine ⟨sealed, made, ?_⟩
  have started : KeyBackupEnvelope.Wraps libraries
      { sealed with wrappedDataKeyRecovery := recovery } password random.dataKey :=
    ⟨wraps.format, wraps.algorithm, wraps.accepted, wraps.wrapped⟩
  have kept := rekeyAll_keeps sound started carries known rekeys knownAll
  generalize rekeyAll libraries ({ sealed with wrappedDataKeyRecovery := recovery }, password)
    rekeys = state at kept ⊢
  obtain ⟨final, last⟩ := state
  obtain ⟨wrapped, carried, knownLast, nonce, ciphertext, slot⟩ := kept
  refine ⟨?_, fun other knownOther apart =>
    unsealRecipientKeysBackup_of_other sound wrapped knownLast knownOther apart, nonce, ciphertext,
    slot, fun rekey knownNew some acceptedNew => ?_⟩
  · unfold unsealRecipientKeysBackup
    rw [unsealRecipientKeysBackupPayload_of_wraps sound wrapped knownLast carried rfl]
    change (keys.map (RecipientKeyBackupEntry.ofRecord libraries)).mapM
      (RecipientKeyBackupEntry.toRecord libraries) = .ok keys
    rw [List.mapM_map]
    have each : ∀ record ∈ keys, RecipientKeyBackupEntry.toRecord libraries
        (.ofRecord libraries record) = .ok (id record) := fun record member =>
      have some := nonempty_of_validate (valid record member)
      sound.toRecord_ofRecord some.1 some.2
    exact (Except.mapM_eq_ok each).trans (congrArg _ (List.map_id keys))
  · apply rekeyBackupEnvelope_succeeds sound wrapped knownLast knownNew some
    cases chosen : rekey.newParams with
    | none => exact wrapped.accepted
    | some newParams => exact acceptedNew newParams chosen

/-! ## A backup under three passwords -/

instance encodableChar : Encodable Char := Encodable.ofLeftInverse Char.toNat Char.ofNat Char.ofNat_toNat

instance : Encodable Text := inferInstanceAs (Encodable (List Char))

deriving instance Encodable for RecipientKeyBackupEntry, RecipientKeysBackupPayload

/-- A key starts with its password, a ciphertext starts with its key, and a payload is written
as the length that numbers it. -/
def backupLibraries : KeyBackupLibraries where
  argon2Params := fun _ => .ok ()
  argon2id := fun _ password _ => .ok (List.Vector.ofFn fun index => password.getD index 0)
  encryptAead := fun key _ plaintext => .ok (key.toList ++ plaintext, List.Vector.replicate 16 0)
  decryptAead := fun key _ ciphertext _ =>
    if ciphertext.take 32 = key.toList then .ok (ciphertext.drop 32) else .error ""
  errorStack := ""
  base64Encode := Base64Url.encode
  base64Decode := fun value => match Base64Url.decode value with
    | some bytes => .ok bytes
    | none => .error "invalid base64url"
  toVec := fun payload => .ok (List.replicate (Encodable.encode payload) 0)
  fromSlice := fun bytes => match Encodable.decode bytes.length with
    | some payload => .ok payload
    | none => .error "expected a payload"

def backupPasswords : Set Text := {"old".toList, "new".toList, "other".toList}

theorem backupLibraries_sound : KeyBackupSound backupLibraries backupPasswords where
  encoded := by
    intro bytes nonempty
    have plain : (Base64Url.encode bytes).all isBase64UrlChar = true :=
      List.all_eq_true.mpr fun char member =>
        List.all_eq_true.mp (by decide : Base64Url.alphabet.all isBase64UrlChar = true) char
          (Base64Url.encode_subset_alphabet bytes member)
    have narrow : ∀ char ∈ Base64Url.encode bytes, char.utf8Size = 1 := fun char member =>
      List.forall_iff_forall_mem.mp (by decide : Base64Url.alphabet.Forall (·.utf8Size = 1)) char
        (Base64Url.encode_subset_alphabet bytes member)
    change validateBase64urlNoPadding (Base64Url.encode bytes) = .ok ()
    unfold validateBase64urlNoPadding
    rw [if_neg (Base64Url.encode_ne_nil nonempty), length_utf8Bytes_narrow narrow,
      if_neg (Base64Url.length_encode_mod bytes), if_pos plain]
  decoded := by
    intro bytes
    change (match Base64Url.decode (Base64Url.encode bytes) with
      | some bytes => Except.ok bytes
      | none => .error "invalid base64url") = .ok bytes
    rw [Base64Url.decode_encode]
  derives := fun _ _ _ => ⟨_, rfl⟩
  collisionFree := by
    intro params salt one two key first second derived derived'
    have same : (List.Vector.ofFn fun index : Fin 32 => (utf8Bytes one).getD index 0) =
        List.Vector.ofFn fun index : Fin 32 => (utf8Bytes two).getD index 0 :=
      Except.ok.inj (derived.trans derived'.symm)
    -- The three passwords differ in their second letter.
    have letter : (utf8Bytes one).getD 1 0 = (utf8Bytes two).getD 1 0 := by
      have letters := congrArg (·.get 1) same
      rw [List.Vector.get_ofFn, List.Vector.get_ofFn] at letters
      exact letters
    rcases first with rfl | rfl | rfl <;> rcases second with rfl | rfl | rfl <;>
      first | rfl | exact absurd letter (by decide +kernel)
  encrypts := fun _ _ _ => ⟨_, _, rfl⟩
  decrypts := by
    intro key nonce plaintext ciphertext tag encrypted
    cases encrypted
    change (if (key.toList ++ plaintext).take 32 = key.toList then
      Except.ok ((key.toList ++ plaintext).drop 32) else .error "") = .ok plaintext
    rw [List.take_left' key.toList_length, List.drop_left' key.toList_length, if_pos rfl]
  authentic := by
    intro key nonce plaintext ciphertext tag other encrypted apart
    cases encrypted
    refine ⟨"", ?_⟩
    change (if (key.toList ++ plaintext).take 32 = other.toList then
      Except.ok ((key.toList ++ plaintext).drop 32) else .error "") = .error ""
    rw [List.take_left' key.toList_length, if_neg fun same => apart (Subtype.ext same.symm)]
  written := by
    intro payload
    refine ⟨_, rfl, ?_⟩
    change (match Encodable.decode (α := RecipientKeysBackupPayload)
        (List.replicate (Encodable.encode payload) (0 : UInt8)).length with
      | some payload => Except.ok payload
      | none => .error "expected a payload") = .ok payload
    rw [List.length_replicate, Encodable.encodek]

def backupRecord : RecipientEncryptionKey where
  keyId := "key".toList
  algorithm := "X25519".toList
  publicKeyFingerprint := "sha256:".toList ++ List.replicate 64 '0'
  publicKeyDer := [1, 2]
  privateKeyDer := [3]
  createdAtUnixSeconds := 7
  label := none

def backupRandom : SealRandom :=
  ⟨.replicate 32 1, .replicate 12 2, .replicate 16 3, .replicate 12 4⟩

/-- From the old password to the new one; the parameters of the last call are refused. -/
def backupRekeys : List Rekey :=
  [⟨"new".toList, none, .replicate 16 5, .replicate 12 6⟩,
    ⟨"other".toList, some ⟨0, 20, 1⟩, .replicate 16 7, .replicate 12 8⟩]

theorem backups_survive_rekeys_sample :
    ∃ sealed, sealRecipientKeysBackup backupLibraries [backupRecord] "old".toList none
        backupRandom = .ok sealed ∧
      let (final, last) := rekeyAll backupLibraries
        ({ sealed with wrappedDataKeyRecovery := some .null }, "old".toList) backupRekeys
      unsealRecipientKeysBackup backupLibraries final last = .ok [backupRecord] ∧
      ∀ other ∈ backupPasswords, other ≠ last →
        unsealRecipientKeysBackup backupLibraries final other = .error .wrongPassword := by
  obtain ⟨sealed, made, opened, refused, -⟩ :=
    @backups_survive_rekeys backupLibraries backupPasswords backupLibraries_sound []
      [backupRecord] (by decide +kernel) "old".toList (by decide) none ⟨rfl, rfl⟩ backupRandom
      (some .null) backupRekeys (.inl rfl) (by
        rintro rekey member
        rcases List.mem_cons.mp member with rfl | member
        · exact .inr (.inl rfl)
        · rw [List.mem_singleton.mp member]
          exact .inr (.inr rfl))
  exact ⟨sealed, made, opened, refused⟩

end ZManager.Identity
