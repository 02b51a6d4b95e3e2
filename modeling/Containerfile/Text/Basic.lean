import Containerfile.Text.Blank

/-! # Text

A text is a list of characters, so that every scan of it is a recursion on the list.  Names are
compared without regard to ASCII case, and blanks are those of `isBlank`.  Finished messages are
`String`s; `str` turns a text into one. -/
namespace Containerfile

/-- A piece of a build file, character by character. -/
abbrev Text := List Char

/-- The text as a string. -/
abbrev str (t : Text) : String := String.ofList t

namespace Text

/-- The number of bytes of the UTF-8 form. -/
def byteSize : Text → Nat
  | [] => 0
  | c :: t => c.utf8Size + byteSize t

/-! ## Case -/

/-- The text with ASCII capitals made small. -/
def lower (t : Text) : Text := t.map Char.toLower

/-- Equality without regard to ASCII case. -/
def sameName (a b : Text) : Bool := a.lower == b.lower

/-! ## Trimming -/

/-- The text without its longest suffix of characters that satisfy `p`. -/
def dropEndWhile (p : Char → Bool) (t : Text) : Text := (t.reverse.dropWhile p).reverse

/-- The text without leading blanks. -/
def trimStart (t : Text) : Text := t.dropWhile isBlank

/-- The text without trailing blanks. -/
def trimEnd (t : Text) : Text := t.dropEndWhile isBlank

/-- The text without blanks at either end. -/
def trim (t : Text) : Text := trimEnd (trimStart t)

/-- The text after a given beginning, if it has that beginning. -/
def after? (start : Text) : Text → Option Text :=
  match start with
  | [] => some
  | c :: start => fun
    | [] => none
    | d :: t => if c = d then after? start t else none

/-! ## Splitting and joining -/

/-- The parts before and after the first `sep`, if there is one. -/
def splitOnce (sep : Char) : Text → Option (Text × Text)
  | [] => none
  | c :: t =>
    if c = sep then some ([], t) else (splitOnce sep t).map fun p => (c :: p.1, p.2)

/-- The parts before and after the last `sep`, if there is one. -/
def splitLast (sep : Char) : Text → Option (Text × Text)
  | [] => none
  | c :: t =>
    match splitLast sep t with
    | some p => some (c :: p.1, p.2)
    | none => if c = sep then some ([], t) else none

/-- All parts between `sep`s; one more part than there are `sep`s. -/
def splitAll (sep : Char) : Text → List Text
  | [] => [[]]
  | c :: t =>
    if c = sep then [] :: splitAll sep t
    else match splitAll sep t with
      | [] => [[c]]
      | part :: parts => (c :: part) :: parts

/-- The first run of characters that are not blank, and what follows it, trimmed. -/
def firstWord (t : Text) : Text × Text :=
  (t.trim.takeWhile (!isBlank ·), trimStart (t.trim.dropWhile (!isBlank ·)))

/-- The parts with `sep` between each two. -/
def join (sep : Text) (parts : List Text) : Text := sep.intercalate parts

/-! ## Lines -/

/-- The lines of a text: they end at a line feed, one carriage return just before it belongs to the
ending, and nothing follows the ending of the last line. -/
def lines (t : Text) : List Text :=
  let parts := t.splitAll '\n'
  let ended := parts.dropLast.map fun l => if l.getLast? = some '\r' then l.dropLast else l
  match parts.getLast? with
  | none | some [] => ended
  | some last => ended ++ [last]

/-- Only the carriage return of a line ending goes, and a last line keeps its own. -/
example : lines "a\r\nb\r\r\n\nc\r".toList = ["a".toList, "b\r".toList, [], "c\r".toList] := by
  decide

end Text

end Containerfile
