/-! # Binary floating-point numbers

The magnitudes of 64-bit binary floating-point numbers as exact values: a whole number times a
power of two.  Every operation is exact arithmetic followed by one rounding to the nearest
representable value, a tie going to the even neighbour. -/
namespace Containerfile

/-- The magnitude `mantissa * 2 ^ exponent` of a finite 64-bit floating-point number. -/
structure Binary64 where
  mantissa : Nat
  exponent : Int
  deriving DecidableEq, Repr

/-- The quotient of two whole numbers, rounded to the nearest, a tie to the even neighbour. -/
def roundDiv (n d : Nat) : Nat :=
  let q := n / d
  let r := n % d
  if d < 2 * r ∨ (2 * r = d ∧ q % 2 = 1) then q + 1 else q

namespace Binary64

/-- Zero. -/
def zero : Binary64 := ⟨0, -1074⟩

/-- Whether the number is zero. -/
def isZero (x : Binary64) : Bool := x.mantissa == 0

/-- The numerator of `b ^ e`. -/
def powNum (b : Nat) (e : Int) : Nat := Nat.pow b e.toNat

/-- The denominator of `b ^ e`. -/
def powDen (b : Nat) (e : Int) : Nat := Nat.pow b (-e).toNat

/-- The least mantissa that takes all of its 53 bits. -/
def leastFull : Nat := Nat.pow 2 52

/-- The least exponent, for numbers so small that the mantissa need not be full. -/
def leastExponent : Int := -1074

/-- The greatest exponent of a finite number. -/
def greatestExponent : Int := 971

/-- The finite number nearest to `num / den`, or `none` if that is infinite. -/
def nearest (num den : Nat) : Option Binary64 :=
  if num = 0 then some zero
  else
    let low := max ((num.log2 : Int) - den.log2 - 53) leastExponent
    let wide := 2 * leastFull ≤ num * powDen 2 low / (den * powNum 2 low)
    let e := if wide then low + 1 else low
    let m := roundDiv (num * powDen 2 e) (den * powNum 2 e)
    let x : Binary64 := if m = 2 * leastFull then ⟨leastFull, e + 1⟩ else ⟨m, e⟩
    if greatestExponent < x.exponent then none else some x

/-- The number nearest to a whole number. -/
def ofNat (n : Nat) : Option Binary64 := nearest n 1

/-- The number nearest to the product of a number and `n / d`. -/
def scale (x : Binary64) (n d : Nat) : Option Binary64 :=
  nearest (x.mantissa * powNum 2 x.exponent * n) (powDen 2 x.exponent * d)

/-- A number divided by another one, which is not zero. -/
def div (x y : Binary64) : Option Binary64 :=
  x.scale (powDen 2 y.exponent) (y.mantissa * powNum 2 y.exponent)

/-- A product of two numbers. -/
def mul (x y : Binary64) : Option Binary64 :=
  x.scale (y.mantissa * powNum 2 y.exponent) (powDen 2 y.exponent)

example : ofNat 1 = some ⟨leastFull, -52⟩ := by decide
example : nearest 1 10 = some ⟨0x1999999999999a, -56⟩ := by decide +kernel
example : nearest (Nat.pow 10 400) 1 = none := by decide +kernel

end Binary64

end Containerfile
