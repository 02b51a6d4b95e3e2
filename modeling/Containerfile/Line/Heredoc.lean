import Containerfile.LineSpan
import Containerfile.Line.Physical
import Containerfile.Word.Quote

/-! # Heredocs

A marker `<<WORD` outside quotes in the text of an instruction announces a heredoc: the lines after
the instruction, up to one that holds the word alone, are its body.  A quoted word says that the
body is not expanded, a dash before the word that leading tabs do not count. -/
namespace Containerfile

/-- A heredoc with its body. -/
structure Heredoc where
  /-- The word that ends it, without quotes. -/
  delimiter : Text
  quoted : Bool
  stripTabs : Bool
  /-- The lines of the body with line feeds between. -/
  body : Text
  /-- From the line before the body to the terminator. -/
  lines : LineSpan
  deriving DecidableEq, Repr

/-- What announces a heredoc. -/
structure HeredocMarker where
  delimiter : Text
  quoted : Bool
  stripTabs : Bool
  deriving DecidableEq, Repr

namespace HeredocMarker

/-- Whether a character may stand in a delimiter. -/
def isWordChar (c : Char) : Bool := c.isAlphanum || c == '_'

/-- Whether a text is a delimiter: not empty, and no digit first. -/
def isWord : Text → Bool
  | [] => false
  | c :: t => (c.isAlpha || c == '_') && t.all isWordChar

/-- Reads a delimiter and, if it is quoted, its closing quote. -/
def readWord (stripTabs : Bool) (quote : Option Quote) (t : Text) :
    Option (HeredocMarker × Text) :=
  let word := t.takeWhile isWordChar
  let rest := t.dropWhile isWordChar
  if !isWord word then none
  else
    match quote, rest with
    | none, rest => some (⟨word, false, stripTabs⟩, rest)
    | some _, [] => none
    | some q, c :: rest => if c = q.char then some (⟨word, true, stripTabs⟩, rest) else none

/-- Reads a delimiter with or without quotes. -/
def readQuoted (stripTabs : Bool) : Text → Option (HeredocMarker × Text)
  | [] => none
  | c :: t =>
    match Quote.ofChar? c with
    | some q => readWord stripTabs (some q) t
    | none => readWord stripTabs none (c :: t)

/-- Reads a marker after its two angle brackets. -/
def read : Text → Option (HeredocMarker × Text)
  | '-' :: t => readQuoted true t
  | t => readQuoted false t

theorem length_of_readWord {stripTabs : Bool} {q : Option Quote} {t rest : Text}
    {m : HeredocMarker} (h : readWord stripTabs q t = some (m, rest)) :
    rest.length < t.length + 1 := by
  have hd : (t.dropWhile isWordChar).length ≤ t.length :=
    (List.dropWhile_suffix _).sublist.length_le
  simp only [readWord] at h
  split at h
  · cases h
  · split at h
    · cases h; omega
    · cases h
    · split at h
      · cases h
        rename_i heq
        rw [heq] at hd
        simp only [List.length_cons] at hd
        omega
      · cases h

theorem length_of_read {t rest : Text} {m : HeredocMarker} (h : read t = some (m, rest)) :
    rest.length < t.length + 1 := by
  have hq : ∀ {b : Bool} {u : Text}, readQuoted b u = some (m, rest) →
      rest.length < u.length + 1 := by
    intro b u hu
    cases u with
    | nil => simp [readQuoted] at hu
    | cons c u =>
      simp only [readQuoted] at hu
      split at hu
      · have := length_of_readWord hu
        simp only [List.length_cons]
        omega
      · exact length_of_readWord hu
  simp only [read] at h
  split at h
  · have := hq h
    simp only [List.length_cons]
    omega
  · exact hq h

set_option linter.unusedVariables false in
/-- The markers of a text in order.  `quote` is the quote that the text starts in and `before` the
character before it.  Two angle brackets make a marker unless a third one stands beside them. -/
def scan (escape : Char) (quote : Option Quote) (before : Option Char) (t : Text) :
    List HeredocMarker :=
  match t with
  | [] => []
  | c :: t =>
    if c = escape ∧ quote ≠ some .single then
      match t with
      | [] => []
      | d :: t => scan escape quote (some d) t
    else
      match quote with
      | some q => scan escape (if c = q.char then none else quote) (some c) t
      | none =>
        if c = '<' ∧ before ≠ some '<' ∧ t.head? = some '<' ∧ t[1]? ≠ some '<' then
          match h : read (t.drop 1) with
          | some (m, rest) => m :: scan escape none none rest
          | none => scan escape none (some c) t
        else scan escape (Quote.ofChar? c) (some c) t
termination_by t.length
decreasing_by
  all_goals simp only [List.length_cons]
  all_goals try omega
  have := length_of_read h
  simp only [List.length_drop] at this
  omega

/-- The markers of the text of an instruction in order. -/
def all (escape : Char) (t : Text) : List HeredocMarker := scan escape none none t

/-- Three angle brackets are no marker, and neither is a quoted one. -/
example : all '\\' "cat <<-'EOF' <<<a '<<B'".toList = [⟨"EOF".toList, true, true⟩] := by
  decide +kernel

/-! ## Bodies -/

/-- What a line holds for a heredoc. -/
def content (m : HeredocMarker) (t : Text) : Text :=
  if m.stripTabs then t.dropWhile (· == '\t') else t

/-- Whether a line ends the heredoc. -/
def isTerminator (m : HeredocMarker) (t : Text) : Bool := (m.content t).trimEnd == m.delimiter

/-- The lines of the body, the terminator and the lines after it, if there is a terminator. -/
def capture (m : HeredocMarker) :
    List PhysicalLine → Option (List PhysicalLine × PhysicalLine × List PhysicalLine)
  | [] => none
  | l :: ls =>
    if m.isTerminator l.text then some ([], l, ls)
    else (m.capture ls).map fun r => (l :: r.1, r.2)

/-- The heredoc of a marker whose body was captured after the line `opening`. -/
def heredoc (m : HeredocMarker) (body : List PhysicalLine) (opening : Nat)
    (terminator : PhysicalLine) : Heredoc :=
  { delimiter := m.delimiter
    quoted := m.quoted
    stripTabs := m.stripTabs
    body := Text.join ['\n'] (body.map fun l => m.content l.text)
    lines := .between opening terminator.number }

end HeredocMarker

end Containerfile
