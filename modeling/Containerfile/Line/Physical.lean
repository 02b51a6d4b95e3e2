import Containerfile.Text.Basic

/-! # Physical lines

The lines of a file as they stand, numbered from 1.  A byte order mark before the first line and one
carriage return at the end of a line are not part of it. -/
namespace Containerfile

/-- A line of a file. -/
structure PhysicalLine where
  number : Nat
  text : Text
  deriving DecidableEq, Repr

namespace PhysicalLine

/-- The byte order mark. -/
def byteOrderMark : Char := '\ufeff'

/-- A line without the carriage return at its end. -/
def dropReturn (t : Text) : Text := if t.getLast? = some '\r' then t.dropLast else t

/-- A line without the byte order mark at its beginning. -/
def dropMark : Text → Text
  | c :: t => if c = byteOrderMark then t else c :: t
  | [] => []

/-- Numbers lines, the first of which has the number `n`. -/
def numberFrom (n : Nat) : List Text → List PhysicalLine
  | [] => []
  | t :: ts => ⟨n, dropReturn (if n = 1 then dropMark t else t)⟩ :: numberFrom (n + 1) ts

/-- The lines of a file. -/
def ofLines (ts : List Text) : List PhysicalLine := numberFrom 1 ts

theorem length_numberFrom (n : Nat) (ts : List Text) : (numberFrom n ts).length = ts.length := by
  induction ts generalizing n with
  | nil => rfl
  | cons t ts ih => simp [numberFrom, ih]

/-- Whether the line has nothing but blanks. -/
def isEmpty (l : PhysicalLine) : Bool := l.text.trim.isEmpty

/-- Whether the line is a comment. -/
def isComment (l : PhysicalLine) : Bool := l.text.trim.head? == some '#'

/-- Whether the line says nothing: it is empty or a comment. -/
def isIdle (l : PhysicalLine) : Bool := l.isEmpty || l.isComment

end PhysicalLine

end Containerfile
