import Containerfile.Aliases
import Containerfile.Diagnostic
import Containerfile.Line.Preamble
import Containerfile.Stage
import Containerfile.Text.Numeral

/-! # Documents

A build file that was read: its directives, the instructions before the first stage, the stages, and
what was found about them. -/
namespace Containerfile

/-- A build file. -/
structure Document where
  directives : Directives
  /-- The bindings before the first stage. -/
  globalArgs : Layer
  /-- The ARGs before the first stage. -/
  globals : List Entry
  stages : List Stage
  diagnostics : List Diagnostic
  deriving DecidableEq, Repr

namespace Document

/-- Whether an error was recorded. -/
def hasErrors (d : Document) : Bool := d.diagnostics.any Diagnostic.isError

/-- The findings that are no errors. -/
def warnings (d : Document) : List Diagnostic := d.diagnostics.filter (!·.isError)

/-- The stage of an index or else of a name. -/
def stage? (d : Document) (name : Text) : Option Stage :=
  match Numeral.read Numeral.greatest64 name with
  | .ok index => d.stages[index]?
  | .error _ => d.stages.find? fun s => Aliases.isCalled name s.givenName

/-- All instructions in order, those before the first stage first. -/
def entries (d : Document) : List Entry := d.globals ++ d.stages.flatMap Stage.entries

/-! ## The canonical text -/

/-- A directive as a line. -/
def directiveLine (name : String) (value : Option Text) : List Text :=
  (value.map fun v => "# ".toList ++ name.toList ++ '=' :: v).toList

/-- The directives as lines, with an empty line after them if there are any.  The escape directive
is left out, since the text is escaped by backslashes. -/
def directiveLines (d : Directives) : List Text :=
  let lines := directiveLine "syntax" d.frontend ++ directiveLine "check" d.check
  if lines.isEmpty then [] else lines ++ [[]]

/-- The stages as blocks, with an empty line before each that something stands before. -/
def stageBlocks (afterOthers : Bool) : List Stage → List Text
  | [] => []
  | s :: stages => (if afterOthers then [[]] else []) ++ s.render :: stageBlocks true stages

/-- The canonical text of a document. -/
def render (d : Document) : Text :=
  (directiveLines d.directives ++ d.globals.map Entry.render ++
    stageBlocks (!d.globals.isEmpty) d.stages).flatMap (· ++ ['\n'])

end Document

end Containerfile
