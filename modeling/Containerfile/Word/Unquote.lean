import Containerfile.Word.Quote

/-! # Removing quotes

The value of a word is the word without its quotes and without the escape characters that protect
something.  Between double quotes the escape character protects only a double quote, a dollar sign
and itself; a lone one at the end of a word stands for itself. -/
namespace Containerfile

/-- How a value was quoted: as a whole, in single or double quotes, or in any other way. -/
inductive Quoting where
  | unquoted
  | single
  | double
  deriving DecidableEq, Repr

/-- The name of a way of quoting. -/
def Quoting.name : Quoting → String
  | unquoted => "unquoted"
  | single => "single"
  | double => "double"

/-- The way of quoting with a kind of quote. -/
def Quoting.ofQuote : Quote → Quoting
  | .single => .single
  | .double => .double

namespace Word

/-- Whether the escape character protects a character between double quotes. -/
def protects (escape c : Char) : Bool := c == '"' || c == '$' || c == escape

/-- The value of the rest of a word that stands in `quote`. -/
def valueFrom (escape : Char) : Option Quote → Text → Text
  | _, [] => []
  | some .single, c :: t =>
    if c = '\'' then valueFrom escape none t else c :: valueFrom escape (some .single) t
  | some .double, [c] => if c = '"' then [] else [c]
  | some .double, c :: d :: t =>
    if c = escape ∧ protects escape d then d :: valueFrom escape (some .double) t
    else if c = '"' then valueFrom escape none (d :: t)
    else c :: valueFrom escape (some .double) (d :: t)
  -- an escape character at the end of a word protects nothing
  | none, [c] => if (Quote.ofChar? c).isSome then [] else [c]
  | none, c :: d :: t =>
    if c = escape then d :: valueFrom escape none t
    else
      match Quote.ofChar? c with
      | some q => valueFrom escape (some q) (d :: t)
      | none => c :: valueFrom escape none (d :: t)

/-- The value of a word. -/
def value (escape : Char) (t : Text) : Text := valueFrom escape none t

/-- Whether a text that stands in a quote leaves it with its last character and not before. -/
def closesAtEnd (escape : Char) (quote : Quote) : Text → Bool
  | [] => false
  | [c] => c == quote.char
  | c :: d :: t =>
    if quote = .double ∧ c = escape ∧ protects escape d then closesAtEnd escape quote t
    else if c = quote.char then false
    else closesAtEnd escape quote (d :: t)

/-- How a word is quoted. -/
def quoting (escape : Char) : Text → Quoting
  | [] => .unquoted
  | c :: t =>
    match Quote.ofChar? c with
    | some q => if c ≠ escape ∧ closesAtEnd escape q t then .ofQuote q else .unquoted
    | none => .unquoted

/-- The value of a word and how it is quoted. -/
def unquote (escape : Char) (t : Text) : Text × Quoting := (value escape t, quoting escape t)

/-- An escape character that protects nothing stays. -/
example : unquote '\\' "\"a \\\"b\\\" \\c\"".toList = ("a \"b\" \\c".toList, .double) := by decide

example : unquote '\\' "'a'b\\ c".toList = ("ab c".toList, .unquoted) := by decide

end Word

end Containerfile
