import Containerfile.Json.Fault
import Containerfile.Text.Numeral

/-! # Scanning JSON text

Readers of the smallest parts of JSON text: blanks, literals, strings and numbers.  Each takes the
text from its first character on and yields what follows, or says where it stopped. -/
namespace Containerfile.Json

/-- What a reader yields: a value and the text after it, or where it stopped. -/
abbrev Scan (α : Type) := Except Halt (α × Text)

/-- The four characters that may stand between the parts of JSON text. -/
def isGap (c : Char) : Bool := c == ' ' || c == '\t' || c == '\n' || c == '\r'

/-- The text without leading gaps. -/
def skipGaps (t : Text) : Text := t.dropWhile isGap

/-- Reads the characters of a literal. -/
def literal (value : α) : Text → Text → Scan α
  | [], t => .ok (value, t)
  | _ :: _, [] => .error (.before .endInValue [])
  | c :: word, d :: t =>
    if c = d then literal value word t else .error (.at .expectedLiteral (d :: t))

/-! ## Strings -/

/-- The value of a hexadecimal digit. -/
def hexValue? (c : Char) : Option Nat :=
  if c.isDigit then some (digitValue c)
  else if 'a' ≤ c ∧ c ≤ 'f' then some (c.toNat - 'a'.toNat + 10)
  else if 'A' ≤ c ∧ c ≤ 'F' then some (c.toNat - 'A'.toNat + 10)
  else none

/-- The value of four hexadecimal digits. -/
def fourDigits? : Text → Option Nat
  | [a, b, c, d] => do
    return (((← hexValue? a) * 16 + (← hexValue? b)) * 16 + (← hexValue? c)) * 16 + (← hexValue? d)
  | _ => none

/-- Reads the four digits of a unit.  Four bytes are taken at once, whatever they hold. -/
def readUnit (t : Text) : Except Halt Nat :=
  if t.byteSize < 4 then .error (.before .endInString [])
  else
    match fourDigits? (t.take 4) with
    | some n => .ok n
    | none => .error ⟨.invalidEscape, t.byteSize - 4⟩

/-- Whether a unit is the first half of a pair. -/
def isHighHalf (n : Nat) : Bool := 0xd800 ≤ n && n ≤ 0xdbff

/-- Whether a unit is the second half of a pair. -/
def isLowHalf (n : Nat) : Bool := 0xdc00 ≤ n && n ≤ 0xdfff

/-- Reads the second half of a pair after the first half `high`. -/
def readLowHalf (high : Nat) : Text → Scan Char
  | [] => .error (.before .endInString [])
  | c :: t =>
    if c ≠ '\\' then .error (.at .endInSurrogates (c :: t))
    else match t with
      | [] => .error (.before .endInString [])
      | d :: t =>
        if d ≠ 'u' then .error (.at .endInSurrogates (d :: t))
        else
          match readUnit t with
          | .error h => .error h
          | .ok low =>
            if isLowHalf low then
              .ok (Char.ofNat (0x10000 + (high - 0xd800) * 0x400 + (low - 0xdc00)), t.drop 4)
            else .error (.before .loneSurrogate (t.drop 4))

/-- Reads a character given by number, after the `u`. -/
def readNumbered (t : Text) : Scan Char :=
  match readUnit t with
  | .error h => .error h
  | .ok n =>
    if isLowHalf n then .error (.before .loneSurrogate (t.drop 4))
    else if isHighHalf n then readLowHalf n (t.drop 4)
    else .ok (Char.ofNat n, t.drop 4)

/-- The character that a letter after a backslash stands for. -/
def escapedChar? : Char → Option Char
  | '"' => some '"'
  | '\\' => some '\\'
  | '/' => some '/'
  | 'b' => some '\x08'
  | 'f' => some '\x0c'
  | 'n' => some '\n'
  | 'r' => some '\r'
  | 't' => some '\t'
  | _ => none

/-- Reads an escape after its backslash. -/
def readEscape : Text → Scan Char
  | [] => .error (.before .endInString [])
  | c :: t =>
    if c = 'u' then readNumbered t
    else match escapedChar? c with
      | some d => .ok (d, t)
      | none => .error (.at .invalidEscape (c :: t))

theorem length_of_readLowHalf {high : Nat} {t rest : Text} {c : Char}
    (h : readLowHalf high t = .ok (c, rest)) : rest.length ≤ t.length := by
  match t with
  | [] => simp [readLowHalf] at h
  | [d] => simp only [readLowHalf] at h; split at h <;> cases h
  | d :: e :: t =>
    simp only [readLowHalf] at h
    split at h
    · cases h
    · split at h
      · cases h
      · split at h
        · cases h
        · split at h
          · simp only [Except.ok.injEq, Prod.mk.injEq] at h
            simp only [← h.2, List.length_drop, List.length_cons]
            omega
          · cases h

theorem length_of_readEscape {t rest : Text} {c : Char} (h : readEscape t = .ok (c, rest)) :
    rest.length ≤ t.length := by
  match t with
  | [] => simp [readEscape] at h
  | d :: t =>
    simp only [readEscape] at h
    split at h
    · simp only [readNumbered] at h
      split at h
      · cases h
      · split at h
        · cases h
        · split at h
          · have := length_of_readLowHalf h
            simp only [List.length_drop] at this
            simp only [List.length_cons]
            omega
          · simp only [Except.ok.injEq, Prod.mk.injEq] at h
            simp only [← h.2, List.length_drop, List.length_cons]
            omega
    · split at h
      · cases h; simp
      · cases h

set_option linter.unusedVariables false in
/-- Reads a string after its opening quote. -/
def readString (t : Text) : Scan Text :=
  match t with
  | [] => .error (.before .endInString [])
  | c :: t =>
    if c = '"' then .ok ([], t)
    else if c = '\\' then
      match h : readEscape t with
      | .error e => .error e
      | .ok (d, rest) => (readString rest).map fun r => (d :: r.1, r.2)
    else if c.toNat < 0x20 then .error (.before .controlCharacter t)
    else (readString t).map fun r => (c :: r.1, r.2)
termination_by t.length
decreasing_by
  · have := length_of_readEscape h
    simp only [List.length_cons]
    omega
  · simp

/-- Skips a string after its opening quote.  Pairs of units are not looked at. -/
def skipString (t : Text) : Except Halt Text :=
  match t with
  | [] => .error (.before .endInString [])
  | c :: t =>
    if c = '"' then .ok t
    else if c = '\\' then
      match t with
      | [] => .error (.before .endInString [])
      | d :: t =>
        if d = 'u' then
          match readUnit t with
          | .error h => .error h
          | .ok _ => skipString (t.drop 4)
        else if (escapedChar? d).isSome then skipString t
        else .error (.at .invalidEscape (d :: t))
    else if c.toNat < 0x20 then .error (.before .controlCharacter (c :: t))
    else skipString t
termination_by t.length
decreasing_by all_goals simp only [List.length_drop, List.length_cons]; omega

/-! ## Numbers -/

/-- Takes digits onto `value` while the result fits 64 bits; yields it with the count of digits
taken. -/
def keepDigits (value : Nat) : Text → Nat × Nat
  | [] => (value, 0)
  | c :: t =>
    let next := value * 10 + digitValue c
    if Numeral.greatest64 < next then (value, 0)
    else
      let (v, n) := keepDigits next t
      (v, n + 1)

/-- The greatest power of ten in the format. -/
def widestPower : Nat := 308

/-- A power of ten, rounded. -/
def tenPower (n : Nat) : Option Binary64 := Binary64.nearest (Nat.pow 10 n) 1

/-- Divides by the greatest power of ten a number of times, as long as anything is left. -/
def divideByWidest : Nat → Binary64 → Option Binary64
  | 0, x => some x
  | k + 1, x =>
    if x.isZero then some x else ((tenPower widestPower).bind x.div).bind (divideByWidest k)

/-- Divides by `10 ^ n`, in steps that the format can hold. -/
def divideByTen (x : Binary64) (n : Nat) : Option Binary64 := do
  let steps := (n - 1) / widestPower
  let y ← divideByWidest steps x
  if y.isZero then some y else y.div (← tenPower (n - steps * widestPower))

/-- The number `significand * 10 ^ exponent`, with the significand rounded first and one more
rounding for the power of ten; `none` if it is out of range. -/
def magnitude? (significand : Nat) (exponent : Int) : Option Binary64 := do
  let x ← Binary64.ofNat significand
  if exponent < 0 then divideByTen x exponent.natAbs
  else if exponent.toNat ≤ widestPower then x.mul (← tenPower exponent.toNat)
  else if x.isZero then some x
  else none

/-- The magnitude of the least whole number of 64 bits with a sign. -/
def greatestNegative : Nat := Nat.pow 2 63

/-- The parts of a written number before its exponent. -/
structure Mantissa where
  negative : Bool
  whole : Text
  fraction : Text

namespace Mantissa

/-- The digits that count, as a whole number, and the power of ten it stands for.
Digits of the whole part that do not fit only raise the power; digits of the fraction
that do not fit are dropped. -/
def significand (m : Mantissa) : Nat × Int :=
  let (v, kept) := keepDigits 0 m.whole
  let (w, places) := keepDigits v m.fraction
  (w, (m.whole.length - kept : Nat) - (places : Int))

/-- The floating-point number with a further power of ten. -/
def toFloat (m : Mantissa) (exponent : Int) (rest : Text) : Scan Number :=
  let (v, e) := m.significand
  match magnitude? v (e + exponent) with
  | some x => .ok (.float m.negative x, rest)
  | none => .error (.before .numberOutOfRange rest)

/-- The number without fraction and exponent: whole if it fits 64 bits; minus zero does not. -/
def toNumber (m : Mantissa) (rest : Text) : Scan Number :=
  let (v, kept) := keepDigits 0 m.whole
  if kept < m.whole.length then m.toFloat 0 rest
  else if !m.negative then .ok (.whole v, rest)
  else if 0 < v ∧ v ≤ greatestNegative then .ok (.whole (-v), rest)
  else m.toFloat 0 rest

end Mantissa

/-- The greatest exponent that is counted. -/
def greatestExponent : Nat := Nat.pow 2 31 - 1

/-- Reads the digits of an exponent onto `value`; past the greatest one, yields the text after the
digit that was too many. -/
def readExponentDigits (value : Nat) : Text → Except Text (Nat × Text)
  | [] => .ok (value, [])
  | c :: t =>
    if !c.isDigit then .ok (value, c :: t)
    else
      let next := value * 10 + digitValue c
      if greatestExponent < next then .error t else readExponentDigits next t

/-- Reads an exponent after its letter and sign. -/
def readExponentValue (m : Mantissa) (negative : Bool) : Text → Scan Number
  | [] => .error (.before .endInValue [])
  | c :: t =>
    if !c.isDigit then .error (.at .invalidNumber (c :: t))
    else
      match readExponentDigits 0 (c :: t) with
      | .ok (e, rest) => m.toFloat (if negative then -e else e) rest
      | .error rest =>
        if m.significand.1 ≠ 0 ∧ !negative then .error (.before .numberOutOfRange rest)
        else .ok (.float m.negative .zero, rest.dropWhile Char.isDigit)

/-- Reads an exponent after its letter. -/
def readExponent (m : Mantissa) : Text → Scan Number
  | '+' :: t => readExponentValue m false t
  | '-' :: t => readExponentValue m true t
  | t => readExponentValue m false t

/-- Reads what follows the whole part of a number. -/
def readNumberTail (negative : Bool) (whole : Text) : Text → Scan Number
  | '.' :: t =>
    let fraction := t.takeWhile Char.isDigit
    let rest := t.dropWhile Char.isDigit
    let m : Mantissa := ⟨negative, whole, fraction⟩
    if fraction.isEmpty then
      .error (.at (if rest.isEmpty then .endInValue else .invalidNumber) rest)
    else
      match rest with
      | 'e' :: rest => readExponent m rest
      | 'E' :: rest => readExponent m rest
      | rest => m.toFloat 0 rest
  | 'e' :: t => readExponent ⟨negative, whole, []⟩ t
  | 'E' :: t => readExponent ⟨negative, whole, []⟩ t
  | t => Mantissa.toNumber ⟨negative, whole, []⟩ t

/-- Reads a number after its sign. -/
def readNumber (negative : Bool) : Text → Scan Number
  | [] => .error (.before .endInValue [])
  | '0' :: t =>
    if (t.head?.map Char.isDigit).getD false then .error (.at .invalidNumber t)
    else readNumberTail negative ['0'] t
  | c :: t =>
    if c.isDigit then
      readNumberTail negative (c :: t.takeWhile Char.isDigit) (t.dropWhile Char.isDigit)
    else .error (.at .invalidNumber (c :: t))

/-- Skips the digits of an exponent after its letter and sign. -/
def skipExponentDigits : Text → Except Halt Text
  | [] => .error (.before .invalidNumber [])
  | c :: t =>
    if c.isDigit then .ok (t.dropWhile Char.isDigit) else .error (.at .invalidNumber (c :: t))

/-- Skips an exponent, if there is one. -/
def skipExponent : Text → Except Halt Text
  | c :: t =>
    if c = 'e' ∨ c = 'E' then
      match t with
      | '+' :: t => skipExponentDigits t
      | '-' :: t => skipExponentDigits t
      | t => skipExponentDigits t
    else .ok (c :: t)
  | [] => .ok []

/-- Skips what follows the whole part of a number. -/
def skipNumberTail : Text → Except Halt Text
  | '.' :: t =>
    match t with
    | [] => .error (.before .invalidNumber [])
    | c :: t =>
      if c.isDigit then skipExponent (t.dropWhile Char.isDigit)
      else .error (.at .invalidNumber (c :: t))
  | t => skipExponent t

/-- Skips a number after its sign.  Its size does not matter. -/
def skipNumber : Text → Except Halt Text
  | [] => .error (.before .invalidNumber [])
  | '0' :: t =>
    if (t.head?.map Char.isDigit).getD false then .error (.at .invalidNumber t)
    else skipNumberTail t
  | c :: t =>
    if c.isDigit then skipNumberTail (t.dropWhile Char.isDigit)
    else .error (.at .invalidNumber (c :: t))

end Containerfile.Json
