import Containerfile.Json.Number
import Containerfile.Text.Quoted

/-! # JSON values and their text

A JSON value keeps the order of its fields, so that its text is determined.  There are two texts:
the compact one has no blanks; the pretty one puts each member on a line of its own, indented by two
spaces a level, and leaves empty arrays and objects closed up. -/
namespace Containerfile

/-- A JSON value. -/
inductive Json where
  | null
  | bool (b : Bool)
  | num (n : Json.Number)
  | text (t : Text)
  | arr (items : List Json)
  | obj (fields : List (String × Json))

namespace Json

/-- A natural number as a value. -/
@[match_pattern]
def nat (n : Nat) : Json := .num (.whole (.ofNat n))

/-- A string as a value. -/
def string (s : String) : Json := .text s.toList

/-- A value that may be missing; missing ones are `null`. -/
def opt (f : α → Json) : Option α → Json
  | none => .null
  | some a => f a

/-- An array of the values of a list. -/
def list (f : α → Json) (xs : List α) : Json := .arr (xs.map f)

/-- How a character appears in a string: quotes, backslashes and controls are escaped. -/
def escapeChar (c : Char) : Text :=
  match c with
  | '"' => ['\\', '"']
  | '\\' => ['\\', '\\']
  | '\x08' => ['\\', 'b']
  | '\x0c' => ['\\', 'f']
  | '\n' => ['\\', 'n']
  | '\r' => ['\\', 'r']
  | '\t' => ['\\', 't']
  | _ =>
    if c.toNat < 0x20 then
      ['\\', 'u', '0', '0', Text.hexDigit (c.toNat / 16), Text.hexDigit c.toNat]
    else [c]

/-- The text of a string, quotes included. -/
def quote (t : Text) : Text := '"' :: t.flatMap escapeChar ++ ['"']

/-! ## The compact text -/

/-- Encloses members, with commas between them. -/
def enclose (left right : Char) (members : List Text) : Text :=
  left :: Text.join [','] members ++ [right]

mutual

/-- The compact text of a value. -/
def compact : Json → Text
  | .null => "null".toList
  | .bool true => "true".toList
  | .bool false => "false".toList
  | .num n => n.text
  | .text t => quote t
  | .arr items => enclose '[' ']' (compactItems items)
  | .obj fields => enclose '\x7b' '\x7d' (compactFields fields)

/-- The compact texts of values. -/
def compactItems : List Json → List Text
  | [] => []
  | v :: vs => compact v :: compactItems vs

/-- The compact texts of fields. -/
def compactFields : List (String × Json) → List Text
  | [] => []
  | (k, v) :: fs => (quote k.toList ++ ':' :: compact v) :: compactFields fs

end

/-! ## The pretty text -/

/-- A new line at a level of indentation. -/
def newline (level : Nat) : Text := '\n' :: List.replicate (2 * level) ' '

/-- Encloses members, each on a line of its own one level deeper. -/
def layOut (left right : Char) (level : Nat) (members : List Text) : Text :=
  if members.isEmpty then [left, right]
  else
    left :: Text.join [','] (members.map (newline (level + 1) ++ ·)) ++ newline level ++ [right]

mutual

/-- The pretty text of a value at a level of indentation. -/
def prettyAt (level : Nat) : Json → Text
  | .null => "null".toList
  | .bool true => "true".toList
  | .bool false => "false".toList
  | .num n => n.text
  | .text t => quote t
  | .arr items => layOut '[' ']' level (prettyItems (level + 1) items)
  | .obj fields => layOut '\x7b' '\x7d' level (prettyFields (level + 1) fields)

/-- The pretty texts of values. -/
def prettyItems (level : Nat) : List Json → List Text
  | [] => []
  | v :: vs => prettyAt level v :: prettyItems level vs

/-- The pretty texts of fields. -/
def prettyFields (level : Nat) : List (String × Json) → List Text
  | [] => []
  | (k, v) :: fs =>
    (quote k.toList ++ ':' :: ' ' :: prettyAt level v) :: prettyFields level fs

end

/-- The pretty text of a value. -/
def pretty (v : Json) : Text := prettyAt 0 v

end Json

end Containerfile
