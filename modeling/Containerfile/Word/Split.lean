import Containerfile.Word.Quote

/-! # Splitting text into words

Words end at blanks that are neither quoted nor escaped.  They are kept as they stand, quotes and
escape characters included. -/
namespace Containerfile.Word

/-- Whether a character at a place that stands in `s` ends a word. -/
def ends (escape : Char) (s : Shelter) (c : Char) : Bool :=
  s == .bare && c != escape && isBlank c

/-- Puts a character in front of the first word. -/
def extend (c : Char) : List Text → List Text
  | [] => [[c]]
  | word :: words => (c :: word) :: words

/-- The words of a text that begins inside a word, with what it stands in, or between words. -/
def splitFrom (escape : Char) : Option Shelter → Text → List Text
  | none, [] => []
  | some _, [] => [[]]
  | none, c :: t =>
    if isBlank c then splitFrom escape none t
    else extend c (splitFrom escape (some (Shelter.bare.step escape c)) t)
  | some s, c :: t =>
    if ends escape s c then [] :: splitFrom escape none t
    else extend c (splitFrom escape (some (s.step escape c)) t)

/-- The words of a text. -/
def split (escape : Char) (t : Text) : List Text := splitFrom escape none t

/-- The parts of a word before and after the first unquoted `mark`; `s` is what the text stands
in. -/
def cutFrom (escape mark : Char) : Shelter → Text → Option (Text × Text)
  | _, [] => none
  | s, c :: t =>
    if s = .bare ∧ c = mark then some ([], t)
    else (cutFrom escape mark (s.step escape c) t).map fun p => (c :: p.1, p.2)

/-- The parts of a word before and after the first unquoted `mark`, if there is one. -/
def cut? (escape mark : Char) (t : Text) : Option (Text × Text) := cutFrom escape mark .bare t

/-- Blanks that are escaped or quoted end no word. -/
example : split '\\' "a\\ b  'c d'e".toList = ["a\\ b".toList, "'c d'e".toList] := by decide

end Containerfile.Word
