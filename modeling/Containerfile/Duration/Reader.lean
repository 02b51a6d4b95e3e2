import Containerfile.Duration.Basic
import Containerfile.Text.Numeral

/-! # Reading durations

A duration is written as groups of a number, an optional fraction and a unit, as in `1h 30min` or
`1.5s`; the groups are added up.  Counts and sums must fit 64 bits, and a fraction must come out
whole: in nanoseconds for units up to the minute, in seconds for longer ones.  Offsets count the
bytes of the text before a place in it. -/
namespace Containerfile

/-- Why a text is no duration. -/
inductive DurationFault where
  | empty
  | numberExpected (offset : Nat)
  | invalidCharacter (offset : Nat)
  | unknownUnit (unit : Text) (count : Nat)
  | tooLarge
  deriving DecidableEq, Repr

/-- The wording of a fault. -/
def DurationFault.message : DurationFault → String
  | .empty => "value was empty"
  | .numberExpected offset => s!"expected number at {offset}"
  | .invalidCharacter offset => s!"invalid character at {offset}"
  | .unknownUnit [] count => s!"time unit needed, for example {count}sec or {count}ms"
  | .unknownUnit unit _ =>
    s!"unknown time unit \"{str unit}\", supported units: ns, us/µs, ms, sec, min, hours, days, " ++
      "weeks, months, years (and few variations)"
  | .tooLarge => "number is too large or cannot be represented without a lack of precision " ++
      "(values below 1ns are not supported)"

namespace Duration

/-- A number that must fit 64 bits. -/
def bounded (n : Nat) : Except DurationFault Nat :=
  if n ≤ Numeral.greatest64 then .ok n else .error .tooLarge

/-- Adds seconds and nanoseconds to a duration. -/
def plus (d : Duration) (seconds nanos : Nat) : Except DurationFault Duration := do
  let nanos ← bounded (d.nanos + nanos)
  let sum := ofParts (d.seconds + seconds) nanos
  let _ ← bounded sum.seconds
  return sum

/-! ## Units -/

/-- What one of a unit is worth. -/
inductive Worth where
  | nanos (n : Nat)
  | seconds (n : Nat)
  deriving DecidableEq, Repr

/-- A unit of time: its names, what one of it is worth, and in what a fraction of it is counted. -/
structure TimeUnit where
  names : List String
  worth : Worth
  fraction : Option Worth

/-- The units of time. -/
def units : List TimeUnit :=
  [⟨["nanos", "nsec", "ns"], .nanos 1, none⟩,
   ⟨["usec", "us", "µs"], .nanos 1000, some (.nanos 1000)⟩,
   ⟨["millis", "msec", "ms"], .nanos 1000000, some (.nanos 1000000)⟩,
   ⟨["seconds", "second", "secs", "sec", "s"], .seconds 1, some (.nanos 1000000000)⟩,
   ⟨["minutes", "minute", "min", "mins", "m"], .seconds 60, some (.nanos 60000000000)⟩,
   ⟨["hours", "hour", "hr", "hrs", "h"], .seconds 3600, some (.seconds 3600)⟩,
   ⟨["days", "day", "d"], .seconds 86400, some (.seconds 86400)⟩,
   ⟨["weeks", "week", "wk", "wks", "w"], .seconds 604800, some (.seconds 604800)⟩,
   ⟨["months", "month", "M"], .seconds 2630016, some (.seconds 2630016)⟩,
   ⟨["years", "year", "yr", "yrs", "y"], .seconds 31557600, some (.seconds 31557600)⟩]

/-- The unit of a name. -/
def unit? (name : Text) : Option TimeUnit :=
  units.find? fun u => u.names.any fun n => n.toList == name

/-- Whether a character may stand in the name of a unit. -/
def isUnitLetter (c : Char) : Bool := c.isAlpha || c == 'µ'

/-! ## Groups -/

/-- The digits after a decimal point, as a fraction. -/
structure Fraction where
  numerator : Nat
  denominator : Nat

/-- Adds `count * worth` to a duration. -/
def plusWhole (d : Duration) (count : Nat) : Worth → Except DurationFault Duration
  | .nanos n => do d.plus 0 (← bounded (count * n))
  | .seconds n => do d.plus (← bounded (count * n)) 0

/-- A fraction of a number of units, which must come out whole. -/
def Fraction.of (f : Fraction) (n : Nat) : Except DurationFault Nat := do
  let product ← bounded (f.numerator * n)
  if product % f.denominator = 0 then return product / f.denominator else throw .tooLarge

/-- Adds `fraction * worth` to a duration. -/
def plusFraction (d : Duration) (f : Fraction) : Option Worth → Except DurationFault Duration
  | none => .error .tooLarge
  | some (.nanos n) => do d.plus 0 (← f.of n)
  | some (.seconds n) => do d.plus (← f.of n) 0

/-- Adds a group to a duration. -/
def plusGroup (d : Duration) (count : Nat) (fraction : Option Fraction) (name : Text) :
    Except DurationFault Duration :=
  match unit? name with
  | none => .error (.unknownUnit name count)
  | some u => do
    let d ← d.plusWhole count u.worth
    match fraction with
    | none => return d
    | some f => d.plusFraction f u.fraction

/-- The first digit of a group and the text after it, or `none` at the end of the text.  Any other
character is refused at the offset where the search began. -/
def firstDigit (size : Nat) (t : Text) : Except DurationFault (Option (Nat × Text)) :=
  match t.dropWhile isBlank with
  | [] => .ok none
  | c :: rest =>
    if c.isDigit then .ok (some (digitValue c, rest))
    else .error (.numberExpected (size - t.byteSize))

/-- Reads the digits after a decimal point up to a unit.  A bad character is refused at `offset`,
which stands at the decimal point until anything follows it; so is a fraction without digits. -/
def readFraction (size offset : Nat) (f : Fraction) : Text →
    Except DurationFault (Fraction × Text)
  | [] => if f.denominator = 1 then .error (.invalidCharacter offset) else .ok (f, [])
  | c :: t =>
    if c.isDigit then do
      let denominator ← bounded (f.denominator * 10)
      let numerator ← bounded (f.numerator * 10 + digitValue c)
      readFraction size (size - Text.byteSize t) ⟨numerator, denominator⟩ t
    else if isBlank c then readFraction size (size - Text.byteSize t) f t
    else if isUnitLetter c ∧ f.denominator ≠ 1 then .ok (f, c :: t)
    else .error (.invalidCharacter offset)

/-- Reads the rest of a number that starts with `count`, up to a unit. -/
def readCount (size count : Nat) : Text →
    Except DurationFault (Nat × Option Fraction × Text)
  | [] => .ok (count, none, [])
  | c :: t =>
    if c.isDigit then do readCount size (← bounded (count * 10 + digitValue c)) t
    else if isBlank c then readCount size count t
    else if isUnitLetter c then .ok (count, none, c :: t)
    else if c = '.' then do
      let (f, rest) ← readFraction size (size - Text.byteSize (c :: t)) ⟨0, 1⟩ t
      return (count, some f, rest)
    else .error (.invalidCharacter (size - Text.byteSize (c :: t)))

/-- Reads groups, at most `fuel` of them, onto a duration; `count` is the digit that the first of
them starts with. -/
def readGroups (size : Nat) : Nat → Duration → Nat → Text → Except DurationFault Duration
  | 0, d, _, _ => .ok d
  | fuel + 1, d, count, t => do
    let (count, fraction, t) ← readCount size count t
    let name := t.takeWhile isUnitLetter
    match t.dropWhile isUnitLetter with
    | [] => d.plusGroup count fraction name
    | c :: t =>
      if c.isDigit then do
        readGroups size fuel (← d.plusGroup count fraction name) (digitValue c) t
      else if isBlank c then do
        let d ← d.plusGroup count fraction name
        match ← firstDigit size t with
        | none => return d
        | some (digit, t) => readGroups size fuel d digit t
      else .error (.invalidCharacter (size - Text.byteSize (c :: t)))

/-- Reads a duration.  A lone `0` needs no unit. -/
def read (t : Text) : Except DurationFault Duration :=
  if t = ['0'] then .ok zero
  else do
    match ← firstDigit t.byteSize t with
    | none => throw .empty
    | some (digit, rest) => readGroups t.byteSize (t.length + 1) zero digit rest

example : read "1 fortnight".toList = .error (.unknownUnit "fortnight".toList 1) := by cbv

/-- The offset is that of the point, since no digit follows it. -/
example : read "1.s".toList = .error (.invalidCharacter 1) := by cbv

end Duration

end Containerfile
