import Containerfile.Diagnostic
import Containerfile.Line.Physical

/-! # The preamble

Comments of the form `# name=value` before the first other line are directives.  They may set the
escape character, name the frontend (`syntax`) and set up the checks (`check`).  Empty lines do not
end the preamble; anything else does, a comment that is no directive included. -/
namespace Containerfile

/-- The escape character that is in force without a directive. -/
def defaultEscape : Char := '\\'

/-- The characters that an escape directive may choose from. -/
def escapeChoices : List Char := ['\\', '\x60']

/-- What the directives of a file say. -/
structure Directives where
  escape : Option Char := none
  frontend : Option Text := none
  check : Option Text := none
  deriving DecidableEq, Repr

namespace Directives

/-- The names of checks that the `check` directive turns off: the parts between commas of each
`skip=` between semicolons. -/
def skippedChecks (d : Directives) : List Text :=
  ((d.check.getD []).splitAll ';').filterMap (Text.after? "skip=".toList ∘ Text.trim)
    |>.flatMap (Text.splitAll ',')
    |>.map Text.trim
    |>.filter (!·.isEmpty)

end Directives

/-- What is known after the preamble. -/
structure Preamble where
  directives : Directives := {}
  /-- The escape character in force. -/
  escape : Char := defaultEscape
  /-- The warnings about repeated directives. -/
  warnings : List Diagnostic := []
  deriving DecidableEq, Repr

namespace Preamble

/-- Whether a text is the name of a directive: a letter, then letters and digits. -/
def isDirectiveName : Text → Bool
  | [] => false
  | c :: t => c.isAlpha && t.all Char.isAlphanum

/-- The name in small letters and the value of a directive, if a trimmed line has the form of
one. -/
def splitDirective : Text → Option (Text × Text)
  | '#' :: body => do
    let (name, value) ← Text.splitOnce '=' body
    if isDirectiveName name.trim && !value.trim.isEmpty then
      return (name.trim.lower, value.trim)
    else none
  | _ => none

/-- The warning about a repeated directive. -/
def repeated (name : Text) (line : Nat) : Diagnostic :=
  .warning "DuplicateDirective"
    s!"parser directive '{str name}' is repeated; the first one is used" (.single line)

/-- Takes an escape directive.  A second one is always refused; a bad value only if the directive is
honoured. -/
def takeEscape (p : Preamble) (honor : Bool) (value : Text) (line : Nat) :
    Except Failure Preamble :=
  if p.directives.escape.isSome then .error (.invalidEscapeDirective value (.single line))
  else
    match value with
    | [c] =>
      if escapeChoices.contains c then .ok (record c)
      else refuse
    | _ => refuse
where
  record (c : Char) : Preamble :=
    { p with
      directives := { p.directives with escape := some c }
      escape := if honor then c else p.escape }
  refuse : Except Failure Preamble :=
    if honor then .error (.invalidEscapeDirective value (.single line))
    else .ok (record defaultEscape)

/-- The escape character that a value chooses. -/
def chosenEscape? : Text → Option Char
  | [c] => if escapeChoices.contains c then some c else none
  | _ => none

/-- What becomes of an escape directive: it is refused, or a character is recorded. -/
theorem takeEscape_eq (p : Preamble) (honor : Bool) (value : Text) (line : Nat) :
    p.takeEscape honor value line =
      if (p.directives.escape.isSome || honor && (chosenEscape? value).isNone) = true then
        .error (.invalidEscapeDirective value (.single line))
      else .ok (takeEscape.record p honor ((chosenEscape? value).getD defaultEscape)) := by
  have hrefuse : chosenEscape? value = none → takeEscape.refuse p honor value line =
      if (honor && (chosenEscape? value).isNone) = true then
        .error (.invalidEscapeDirective value (.single line))
      else .ok (takeEscape.record p honor ((chosenEscape? value).getD defaultEscape)) := by
    intro hnone
    rw [hnone, Option.isNone_none, Bool.and_true]
    rfl
  unfold takeEscape
  by_cases hsome : p.directives.escape.isSome = true
  · rw [if_pos hsome, hsome]
    rfl
  · rw [if_neg hsome, Bool.eq_false_iff.mpr hsome, Bool.false_or]
    split
    · rename_i c
      by_cases hc : escapeChoices.contains c = true
      · have hchosen : chosenEscape? [c] = some c := if_pos hc
        rw [if_pos hc, hchosen, Option.isNone_some, Bool.and_false]
        rfl
      · rw [if_neg hc]
        exact hrefuse (if_neg hc)
    · rename_i hlong
      apply hrefuse
      unfold chosenEscape?
      split
      · exact absurd rfl (hlong _)
      · rfl

/-- Takes a directive on a line, or yields `none` if its name is unknown. -/
def take (p : Preamble) (honor : Bool) (name value : Text) (line : Nat) :
    Option (Except Failure Preamble) :=
  let warned : Preamble := { p with warnings := p.warnings ++ [repeated name line] }
  if name = "escape".toList then some (p.takeEscape honor value line)
  else if name = "syntax".toList then
    some (.ok (if p.directives.frontend.isSome then warned
      else { p with directives := { p.directives with frontend := some value } }))
  else if name = "check".toList then
    some (.ok (if p.directives.check.isSome then warned
      else { p with directives := { p.directives with check := some value } }))
  else none

/-- What reading a preamble yields: what is known after it, and the lines after it or the failure
that ended the reading. -/
structure Reading where
  preamble : Preamble
  rest : Except Failure (List PhysicalLine)

/-- Reads the preamble on from what is known. -/
def readOn (honor : Bool) (p : Preamble) : List PhysicalLine → Reading
  | [] => ⟨p, .ok []⟩
  | l :: ls =>
    if l.isEmpty then readOn honor p ls
    else
      match splitDirective l.text.trim with
      | none => ⟨p, .ok (l :: ls)⟩
      | some (name, value) =>
        match p.take honor name value l.number with
        | none => ⟨p, .ok (l :: ls)⟩
        | some (.error f) => ⟨p, .error f⟩
        | some (.ok q) => readOn honor q ls

/-- Reads the preamble of a file. -/
def read (honor : Bool) (ls : List PhysicalLine) : Reading := readOn honor {} ls

end Preamble

end Containerfile
