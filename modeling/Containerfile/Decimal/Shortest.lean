import Containerfile.Decimal.Binary64

/-! # Shortest decimals

The decimal text of a 64-bit floating-point number: the fewest digits that read back as the same
number, and of those the nearest to it.  Grids of one digit, two digits and so on are tried in turn;
on each the two neighbours of the number are the only candidates. -/
namespace Containerfile

/-- The number `digits * 10 ^ exponent`. -/
structure Decimal where
  digits : Nat
  exponent : Int
  deriving DecidableEq, Repr

namespace Decimal

/-- The decimal digits of the significand. -/
def digitText (d : Decimal) : List Char := Nat.toDigits 10 d.digits

/-- The exponent of the leading digit. -/
def leading (d : Decimal) : Int := d.exponent + (d.digitText.length - 1)

/-- Removes trailing zeros of the digits, at most `fuel` of them. -/
def strip : Nat → Decimal → Decimal
  | 0, d => d
  | fuel + 1, d =>
    if d.digits ≠ 0 ∧ d.digits % 10 = 0 then strip fuel ⟨d.digits / 10, d.exponent + 1⟩ else d

/-- How decimals are laid out. -/
structure Layout where
  /-- The least leading exponent that is written positionally. -/
  leastPositional : Int
  /-- The greatest leading exponent that is written positionally. -/
  greatestPositional : Int

/-- Writes an exponent with its sign. -/
def exponentText (e : Int) : List Char :=
  'e' :: (if e < 0 then '-' else '+') :: Nat.toDigits 10 e.natAbs

/-- Lays a decimal out.  Positional text always has a fraction, if only `.0`. -/
def layOut (l : Layout) (d : Decimal) : List Char :=
  let digits := d.digitText
  let e := d.leading
  if l.leastPositional ≤ e ∧ e ≤ l.greatestPositional then
    if e < 0 then ['0', '.'] ++ List.replicate (-e - 1).toNat '0' ++ digits
    else
      let whole := e.toNat + 1
      digits.take whole ++ List.replicate (whole - digits.length) '0' ++ ['.'] ++
        (if digits.length ≤ whole then ['0'] else digits.drop whole)
  else
    digits.take 1 ++ (if digits.length ≤ 1 then [] else '.' :: digits.drop 1) ++ exponentText e

end Decimal

namespace Binary64

/-- Whether `digits * 10 ^ exponent` rounds to `x`: it lies between the midpoints to the numbers
next to `x`, ends included if the mantissa is even.  Distances are counted in quarters of the last
place of `x`. -/
def readsBack (x : Binary64) (d : Decimal) : Bool :=
  let below := if x.mantissa = leastFull ∧ leastExponent < x.exponent then 1 else 2
  let unitNum := powNum 2 (x.exponent - 2) * powDen 10 d.exponent
  let unitDen := powDen 2 (x.exponent - 2) * powNum 10 d.exponent
  let low := (4 * x.mantissa - below) * unitNum
  let high := (4 * x.mantissa + 2) * unitNum
  let value := d.digits * unitDen
  if x.mantissa % 2 = 0 then decide (low ≤ value ∧ value ≤ high)
  else decide (low < value ∧ value < high)

/-- The grid point at or below `x` among the multiples of `10 ^ k`, and twice the remainder with
the divisor, to tell which neighbour is nearer. -/
def gridFloor (x : Binary64) (k : Int) : Nat × Nat × Nat :=
  let num := x.mantissa * powNum 2 x.exponent * powDen 10 k
  let den := powDen 2 x.exponent * powNum 10 k
  (num / den, 2 * (num % den), den)

/-- The neighbours of `x` on the grid of multiples of `10 ^ k` that read back, the nearer first, and
the even one first if both are equally near. -/
def candidates (x : Binary64) (k : Int) : List Decimal :=
  let (q, twice, den) := x.gridFloor k
  let lowFirst := twice < den ∨ (twice = den ∧ q % 2 = 0)
  let near : List Decimal := if lowFirst then [⟨q, k⟩, ⟨q + 1, k⟩] else [⟨q + 1, k⟩, ⟨q, k⟩]
  near.filter x.readsBack

/-- The exponent of the leading decimal digit of a number that is not zero. -/
def decimalExponent (x : Binary64) : Int :=
  let num := x.mantissa * powNum 2 x.exponent
  let den := powDen 2 x.exponent
  if den ≤ num then (Nat.toDigits 10 (num / den)).length - 1
  else
    match (List.range 400).find? fun j => decide (den ≤ num * Nat.pow 10 j) with
    | some j => -j
    | none => -400

/-- The shortest decimal that reads back as `x`; seventeen digits always do. -/
def shortest (x : Binary64) : Decimal :=
  if x.isZero then ⟨0, 0⟩
  else
    let p := x.decimalExponent
    let found := (List.range 17).findSome? fun (n : Nat) => (x.candidates (p - n)).head?
    (found.getD ⟨x.mantissa, 0⟩).strip 20

/-- The decimal text of a number. -/
def text (l : Decimal.Layout) (x : Binary64) : List Char := x.shortest.layOut l

end Binary64

end Containerfile
