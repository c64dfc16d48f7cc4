import Mathlib.Data.Vector.Basic
import Mathlib.Tactic.IntervalCases
import ZManager.Foundation.Text

/-! # Public identifiers

The identifier forms that the identity inventory accepts: `sha256:` digests,
base64url key identifiers, serial numbers and the prefixed public ids. The
digest and the base64 codec are third-party code and stay parameters; what the
checks read of them is only the text they produce.
-/

namespace ZManager.Identity

/-- The primitives of the crates outside the repository: SHA-256 and the
unpadded URL-safe base64 codec. -/
structure Primitives where
  digest : List UInt8 → List.Vector UInt8 32
  base64Decode : Text → Option (List UInt8)
  base64Encode : List UInt8 → Text

def isLowerHex (char : Char) : Bool :=
  ('0' ≤ char && char ≤ '9') || ('a' ≤ char && char ≤ 'f')

def isUpperHex (char : Char) : Bool :=
  ('0' ≤ char && char ≤ '9') || ('A' ≤ char && char ≤ 'F')

def isAlphanumeric (char : Char) : Bool :=
  ('a' ≤ char && char ≤ 'z') || ('A' ≤ char && char ≤ 'Z') || ('0' ≤ char && char ≤ '9')

def isBase64UrlChar (char : Char) : Bool :=
  isAlphanumeric char || char == '-' || char == '_'

/-- The lower-case hexadecimal digit of a number below sixteen. -/
def hexDigit (number : Nat) : Char :=
  ['0', '1', '2', '3', '4', '5', '6', '7', '8', '9', 'a', 'b', 'c', 'd', 'e', 'f'].getD number '0'

/-- Two hexadecimal digits for each byte. -/
def hexWith (digit : Nat → Char) (bytes : List UInt8) : Text :=
  bytes.flatMap fun byte => [digit (byte.toNat / 16), digit (byte.toNat % 16)]

def hexLower (bytes : List UInt8) : Text := hexWith hexDigit bytes

def sha256IdentifierPrefix : Text := "sha256:".toList

/-- The `sha256:` identifier of bytes. -/
def sha256Identifier (primitives : Primitives) (bytes : List UInt8) : Text :=
  sha256IdentifierPrefix ++ hexLower (primitives.digest bytes).toList

/-- A lower-case `sha256:` identifier, as `parse_sha256_identifier` accepts it. -/
def isValidSha256Identifier (value : Text) : Bool :=
  sha256IdentifierPrefix.isPrefixOf value &&
    (value.drop sha256IdentifierPrefix.length).length == 64 &&
    (value.drop sha256IdentifierPrefix.length).all isLowerHex

/-- An upper-case serial number of full bytes, positive and without a leading
zero byte. -/
def isValidSerialHex (serial : Text) : Bool :=
  !serial.isEmpty && serial.length % 2 == 0 && serial.all isUpperHex &&
    !serial.all (· == '0') && !(serial.length > 2 && "00".toList.isPrefixOf serial)

/-- Non-empty unpadded base64url text of a possible length. -/
def isValidIssuerKeyIdentifier (value : Text) : Bool :=
  !value.isEmpty && value.length % 4 != 1 && value.all isBase64UrlChar

/-- A public id: the kind's prefix and a suffix of 16 to 64 plain characters. -/
def isValidPublicIdentifier (value start : Text) : Bool :=
  start.isPrefixOf value && 16 ≤ (value.drop start.length).length &&
    (value.drop start.length).length ≤ 64 && (value.drop start.length).all isBase64UrlChar

def isValidPublicSignerId (value : Text) : Bool := isValidPublicIdentifier value "psign_".toList

def isValidPublicOrgId (value : Text) : Bool := isValidPublicIdentifier value "porg_".toList

def isValidPublicDeviceId (value : Text) : Bool := isValidPublicIdentifier value "pdev_".toList

theorem exists_digit_of_mem_hexWith {digit : Nat → Char} {bytes : List UInt8} {char : Char}
    (member : char ∈ hexWith digit bytes) : ∃ number < 16, char = digit number := by
  obtain ⟨byte, _, inside⟩ := List.mem_flatMap.mp member
  have low := byte.toNat_lt
  rcases List.mem_pair.mp inside with rfl | rfl
  · exact ⟨byte.toNat / 16, by omega, rfl⟩
  · exact ⟨byte.toNat % 16, by omega, rfl⟩

theorem isLowerHex_of_mem_hexLower {bytes : List UInt8} {char : Char}
    (member : char ∈ hexLower bytes) : isLowerHex char = true := by
  obtain ⟨number, small, rfl⟩ := exists_digit_of_mem_hexWith member
  interval_cases number <;> rfl

theorem isWhitespace_of_isLowerHex {char : Char} (hex : isLowerHex char = true) :
    Text.isWhitespace char = false := by
  have range : (48 ≤ char.toNat ∧ char.toNat ≤ 57) ∨ (97 ≤ char.toNat ∧ char.toNat ≤ 102) := by
    simpa [isLowerHex, Char.le_def, UInt32.le_iff_toNat_le] using hex
  simp only [Text.isWhitespace, Bool.or_eq_false_iff, Bool.and_eq_false_iff, decide_eq_false_iff_not]
  omega

/-- The identifiers that the code computes hold no white space to trim. -/
@[simp] theorem trim_sha256Identifier (primitives : Primitives) (bytes : List UInt8) :
    (sha256Identifier primitives bytes).trim = sha256Identifier primitives bytes := by
  have plain : ∀ char ∈ sha256IdentifierPrefix, Text.isWhitespace char = false := by
    have all : sha256IdentifierPrefix.all (fun char => !Text.isWhitespace char) = true := by decide
    exact fun char member => (Bool.not_eq_true' _).mp (List.all_eq_true.mp all char member)
  apply Text.trim_eq_self
  intro char member
  rcases List.mem_append.mp member with inside | inside
  · exact plain char inside
  · exact isWhitespace_of_isLowerHex (isLowerHex_of_mem_hexLower inside)

theorem sha256Identifier_ne_nil (primitives : Primitives) (bytes : List UInt8) :
    sha256Identifier primitives bytes ≠ [] :=
  List.append_ne_nil_of_left_ne_nil (by decide) _

end ZManager.Identity
