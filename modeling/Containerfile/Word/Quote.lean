import Containerfile.Text.Basic

/-! # Quotes in words

The automaton that tells, character by character, whether a place in a text is quoted or escaped.
The escape character protects the next character outside quotes and between double quotes, and
nothing between single quotes. -/
namespace Containerfile

/-- The two kinds of quotes. -/
inductive Quote where
  | single
  | double
  deriving DecidableEq, Repr

/-- The character of a quote. -/
def Quote.char : Quote → Char
  | .single => '\''
  | .double => '"'

/-- The quote that a character is. -/
def Quote.ofChar? (c : Char) : Option Quote :=
  if c = '\'' then some .single else if c = '"' then some .double else none

/-- What a place in a text stands in. -/
inductive Shelter where
  /-- Outside quotes. -/
  | bare
  /-- Outside quotes, after an escape character. -/
  | escaped
  /-- Between quotes. -/
  | within (quote : Quote)
  /-- Between double quotes, after an escape character. -/
  | escapedWithin
  deriving DecidableEq, Repr

/-- What the place after a character stands in. -/
def Shelter.step (escape : Char) : Shelter → Char → Shelter
  | .bare, c =>
    if c = escape then .escaped
    else match Quote.ofChar? c with
      | some q => .within q
      | none => .bare
  | .escaped, _ => .bare
  | .within .single, c => if c = '\'' then .bare else .within .single
  | .within .double, c =>
    if c = '"' then .bare else if c = escape then .escapedWithin else .within .double
  | .escapedWithin, _ => .within .double

/-- What the place after a text stands in. -/
def Shelter.run (escape : Char) (s : Shelter) (t : Text) : Shelter := t.foldl (step escape) s

@[simp] theorem Shelter.run_nil (escape : Char) (s : Shelter) : s.run escape [] = s := rfl

@[simp] theorem Shelter.run_cons (escape : Char) (s : Shelter) (c : Char) (t : Text) :
    s.run escape (c :: t) = (s.step escape c).run escape t := rfl

end Containerfile
