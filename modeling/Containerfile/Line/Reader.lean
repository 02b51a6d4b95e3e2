import Containerfile.Line.Logical

/-! # Readers of lines

The logical lines of a file, one at a time.  A reader holds the lines before it and what the
directives behind it say.  A turn deals with the next line: in the preamble an empty line and a
directive are dealt with on their own; any other line ends the preamble and is dropped or begins a
logical line.  A failure ends the reading. -/
namespace Containerfile

/-- A place among the lines of a file. -/
structure LineReader where
  /-- The lines before the reader. -/
  rest : List PhysicalLine
  preamble : Preamble := {}
  /-- Whether directives may still follow. -/
  inPreamble : Bool := true
  /-- Whether a failure ended the reading. -/
  stopped : Bool := false
  deriving DecidableEq, Repr

/-- What a preamble makes of a line, if that is a directive. -/
def Preamble.takeLine (honor : Bool) (p : Preamble) (l : PhysicalLine) :
    Option (Except Failure Preamble) :=
  (splitDirective l.text.trim).bind fun d => p.take honor d.1 d.2 l.number

namespace LineReader

/-- What a reader yields. -/
abbrev Item := Except Failure LogicalLine

/-- The reader before the first line. -/
def ofLines (ts : List Text) : LineReader := { rest := PhysicalLine.ofLines ts }

/-- Ends the preamble with a line, and drops it or reads the logical line that it begins. -/
def pass (r : LineReader) (l : PhysicalLine) (ls : List PhysicalLine) : LineReader × Option Item :=
  let r := { r with rest := ls, inPreamble := false }
  if l.isIdle then (r, none)
  else
    match LogicalLine.readAt r.preamble.escape l ls with
    | .ok (line, rest) => ({ r with rest := rest }, some (.ok line))
    -- all lines were searched for the end of a heredoc
    | .error f => ({ r with rest := [], stopped := true }, some (.error f))

/-- Deals with the next line, if there is one; yields what came of it. -/
def turn (honor : Bool) (r : LineReader) : Option (LineReader × Option Item) :=
  match r.rest with
  | [] => none
  | l :: ls =>
    if r.stopped then none
    else if r.inPreamble then
      if l.isEmpty then some ({ r with rest := ls }, none)
      else
        match r.preamble.takeLine honor l with
        | some (.ok p) => some ({ r with rest := ls, preamble := p }, none)
        | some (.error f) => some ({ r with rest := ls, stopped := true }, some (.error f))
        | none => some (r.pass l ls)
    else some (r.pass l ls)

end LineReader

end Containerfile
