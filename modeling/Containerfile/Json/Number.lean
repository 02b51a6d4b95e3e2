import Containerfile.Decimal.Shortest
import Containerfile.Text.Basic

/-! # JSON numbers

Numbers as far as 64 bits can hold them: whole numbers exactly, all others as the nearest
floating-point number, which is written in the fewest digits that read back. -/
namespace Containerfile.Json

/-- A number as it was read: whole if it fits 64 bits, else a floating-point number. -/
inductive Number where
  | whole (n : Int)
  | float (negative : Bool) (magnitude : Binary64)
  deriving DecidableEq, Repr

/-- Floating-point numbers are positional from 0.00001 up to sixteen digits. -/
def Number.layout : Decimal.Layout := ⟨-5, 15⟩

/-- Whether a number is whole. -/
def Number.isWhole : Number → Bool
  | .whole _ => true
  | .float _ _ => false

/-- The text of a number. -/
def Number.text : Number → Text
  | .whole (.ofNat n) => Nat.toDigits 10 n
  | .whole (.negSucc n) => '-' :: Nat.toDigits 10 (n + 1)
  | .float false x => x.text layout
  | .float true x => '-' :: x.text layout

example : (Binary64.nearest 1 10).map (·.text Number.layout) = some "0.1".toList := by
  decide +kernel

example : (Binary64.nearest 1 (Nat.pow 10 6)).map (·.text Number.layout) = some "1e-6".toList := by
  decide +kernel

example : (Binary64.ofNat (Nat.pow 10 21)).map (·.text Number.layout) = some "1e+21".toList := by
  decide +kernel

end Containerfile.Json
