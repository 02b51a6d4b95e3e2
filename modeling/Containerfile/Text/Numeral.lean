import Containerfile.Text.Basic

/-! # Numerals

Unsigned whole numbers in text: an optional `+`, then ASCII digits, leading zeros allowed, up to a
greatest value.  Digits are taken from the left and the first thing wrong is reported: a character
that is no digit, or a digit that makes the number too large. -/
namespace Containerfile

/-- Why a text is no numeral. -/
inductive NumeralFault where
  | empty
  | badDigit
  | tooLarge
  deriving DecidableEq, Repr

namespace NumeralFault

/-- The wording of a fault. -/
def message : NumeralFault → String
  | empty => "cannot parse integer from empty string"
  | badDigit => "invalid digit found in string"
  | tooLarge => "number too large to fit in target type"

end NumeralFault

/-- The value of an ASCII digit. -/
def digitValue (c : Char) : Nat := c.toNat - '0'.toNat

namespace Numeral

/-- Reads digits onto `value`, which may not pass `greatest`. -/
def readDigits (greatest : Nat) (value : Nat) : Text → Except NumeralFault Nat
  | [] => .ok value
  | c :: t =>
    if !c.isDigit then .error .badDigit
    else
      let next := value * 10 + digitValue c
      if greatest < next then .error .tooLarge else readDigits greatest next t

/-- Reads a numeral of at most `greatest`. -/
def read (greatest : Nat) : Text → Except NumeralFault Nat
  | [] => .error .empty
  | ['+'] => .error .badDigit
  | '+' :: t => readDigits greatest 0 t
  | t => readDigits greatest 0 t

/-- The greatest number of 32 bits. -/
def greatest32 : Nat := Nat.pow 2 32 - 1

/-- The greatest number of 64 bits. -/
def greatest64 : Nat := Nat.pow 2 64 - 1

example : read greatest64 "+007".toList = .ok 7 := by rfl

example : read greatest32 "4294967296".toList = .error .tooLarge := by rfl

example : read greatest32 "-1".toList = .error .badDigit := by rfl

end Numeral

end Containerfile
