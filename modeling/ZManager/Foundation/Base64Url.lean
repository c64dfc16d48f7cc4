import Mathlib.Data.List.Basic

/-! # Unpadded URL-safe base64

Three bytes are four symbols of six bits; one or two bytes at the end are two or
three symbols whose last bits are zero. Bytes are read back from their text.
-/

namespace ZManager.Base64Url

def alphabet : List Char :=
  "ABCDEFGHIJKLMNOPQRSTUVWXYZabcdefghijklmnopqrstuvwxyz0123456789-_".toList

/-- The symbol of a number below 64. -/
def symbol (number : Nat) : Char := alphabet.getD number 'A'

def number? (char : Char) : Option Nat := alphabet.idxOf? char

def encode : List UInt8 → List Char
  | [] => []
  | [a] => [symbol (a.toNat / 4), symbol (a.toNat % 4 * 16)]
  | [a, b] =>
    [symbol (a.toNat / 4), symbol (a.toNat % 4 * 16 + b.toNat / 16),
      symbol (b.toNat % 16 * 4)]
  | a :: b :: c :: rest =>
    symbol (a.toNat / 4) :: symbol (a.toNat % 4 * 16 + b.toNat / 16) ::
      symbol (b.toNat % 16 * 4 + c.toNat / 64) :: symbol (c.toNat % 64) :: encode rest

/-- The text of some bytes, with the unused bits of its last symbol zero. -/
def decode : List Char → Option (List UInt8)
  | [] => some []
  | [_] => none
  | [w, x] => do
      let first ← number? w
      let second ← number? x
      if second % 16 = 0 then some [.ofNat (first * 4 + second / 16)] else none
  | [w, x, y] => do
      let first ← number? w
      let second ← number? x
      let third ← number? y
      if third % 4 = 0 then
        some [.ofNat (first * 4 + second / 16), .ofNat (second % 16 * 16 + third / 4)]
      else none
  | w :: x :: y :: z :: text => do
      let first ← number? w
      let second ← number? x
      let third ← number? y
      let fourth ← number? z
      let rest ← decode text
      return .ofNat (first * 4 + second / 16) :: .ofNat (second % 16 * 16 + third / 4) ::
        .ofNat (third % 4 * 64 + fourth) :: rest

theorem number?_symbol {number : Nat} (small : number < 64) :
    number? (symbol number) = some number := by
  have each : ∀ index : Fin 64, number? (symbol index) = some index.val := by decide +kernel
  exact each ⟨number, small⟩

theorem symbol_mem_alphabet (number : Nat) : symbol number ∈ alphabet := by
  unfold symbol
  rw [List.getD_eq_getElem?_getD]
  cases found : alphabet[number]? with
  | none => decide
  | some char => exact List.mem_of_getElem? found

theorem encode_subset_alphabet (bytes : List UInt8) : encode bytes ⊆ alphabet := by
  fun_induction encode bytes with
  | case1 => exact List.nil_subset _
  | case2 | case3 => simp [symbol_mem_alphabet]
  | case4 a b c rest ih => simp [symbol_mem_alphabet, ih]

theorem length_encode_mod (bytes : List UInt8) : (encode bytes).length % 4 ≠ 1 := by
  fun_induction encode bytes with
  | case1 | case2 | case3 => simp
  | case4 a b c rest ih =>
    simp only [List.length_cons]
    omega

theorem encode_ne_nil {bytes : List UInt8} (nonempty : bytes ≠ []) : encode bytes ≠ [] := by
  fun_cases encode bytes
  · exact absurd rfl nonempty
  all_goals exact List.cons_ne_nil _ _

theorem ofNat_eq {byte : UInt8} {number : Nat} (same : number = byte.toNat) :
    UInt8.ofNat number = byte := by
  rw [same, UInt8.ofNat_toNat]

/-- Bytes are read back from their text. -/
theorem decode_encode (bytes : List UInt8) : decode (encode bytes) = some bytes := by
  fun_induction encode bytes with
  | case1 => rfl
  | case2 a =>
    have below := a.toNat_lt
    have back : UInt8.ofNat (a.toNat / 4 * 4 + a.toNat % 4 * 16 / 16) = a :=
      ofNat_eq (by omega)
    have first := @number?_symbol (a.toNat / 4) (by omega)
    have second := @number?_symbol (a.toNat % 4 * 16) (by omega)
    have unused : a.toNat % 4 * 16 % 16 = 0 := by omega
    simp only [decode, first, second, Option.bind_eq_bind, Option.bind_some, unused, back,
      if_true]
  | case3 a b =>
    have belowA := a.toNat_lt
    have belowB := b.toNat_lt
    have first := @number?_symbol (a.toNat / 4) (by omega)
    have second := @number?_symbol (a.toNat % 4 * 16 + b.toNat / 16) (by omega)
    have third := @number?_symbol (b.toNat % 16 * 4) (by omega)
    have backA : UInt8.ofNat (a.toNat / 4 * 4 + (a.toNat % 4 * 16 + b.toNat / 16) / 16) = a :=
      ofNat_eq (by omega)
    have backB : UInt8.ofNat ((a.toNat % 4 * 16 + b.toNat / 16) % 16 * 16 +
        b.toNat % 16 * 4 / 4) = b := ofNat_eq (by omega)
    have unused : b.toNat % 16 * 4 % 4 = 0 := by omega
    simp only [decode, first, second, third, Option.bind_eq_bind, Option.bind_some, unused,
      backA, backB, if_true]
  | case4 a b c rest ih =>
    have belowA := a.toNat_lt
    have belowB := b.toNat_lt
    have belowC := c.toNat_lt
    have first := @number?_symbol (a.toNat / 4) (by omega)
    have second := @number?_symbol (a.toNat % 4 * 16 + b.toNat / 16) (by omega)
    have third := @number?_symbol (b.toNat % 16 * 4 + c.toNat / 64) (by omega)
    have fourth := @number?_symbol (c.toNat % 64) (by omega)
    have backA : UInt8.ofNat (a.toNat / 4 * 4 + (a.toNat % 4 * 16 + b.toNat / 16) / 16) = a :=
      ofNat_eq (by omega)
    have backB : UInt8.ofNat ((a.toNat % 4 * 16 + b.toNat / 16) % 16 * 16 +
        (b.toNat % 16 * 4 + c.toNat / 64) / 4) = b := ofNat_eq (by omega)
    have backC : UInt8.ofNat ((b.toNat % 16 * 4 + c.toNat / 64) % 4 * 64 + c.toNat % 64) = c :=
      ofNat_eq (by omega)
    simp only [decode, first, second, third, fourth, Option.bind_eq_bind, Option.bind_some, ih,
      backA, backB, backC, Option.pure_def]

end ZManager.Base64Url
