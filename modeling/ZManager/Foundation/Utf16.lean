import ZManager.Foundation.Slice
import ZManager.Foundation.Text

/-! # Texts as UTF-16 units

A lossy reader replaces a unit that is half of a pair without the other half, and gives
the units of a text back as that text.
-/

namespace ZManager

namespace Utf16

def isHigh (unit : Nat) : Prop := 0xd800 ≤ unit ∧ unit < 0xdc00

instance (unit : Nat) : Decidable (isHigh unit) := inferInstanceAs (Decidable (_ ∧ _))

def isLow (unit : Nat) : Prop := 0xdc00 ≤ unit ∧ unit < 0xe000

instance (unit : Nat) : Decidable (isLow unit) := inferInstanceAs (Decidable (_ ∧ _))

/-- The character for a half of a pair without the other half. -/
def replacement : Char := Char.ofNat 0xfffd

/-- `String::from_utf16_lossy`. -/
def decodeLossy : List Nat → Text
  | [] => []
  | [unit] => [if isHigh unit ∨ isLow unit then replacement else Char.ofNat unit]
  | high :: low :: rest =>
    if isHigh high ∧ isLow low then
      Char.ofNat (0x10000 + (high - 0xd800) * 0x400 + (low - 0xdc00)) :: decodeLossy rest
    else
      (if isHigh high ∨ isLow high then replacement else Char.ofNat high) ::
        decodeLossy (low :: rest)

end Utf16

end ZManager
