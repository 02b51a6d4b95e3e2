import Containerfile.Instruction.Printer
import Containerfile.Scope.Binding

/-! # Stages

A stage is a FROM with the instructions up to the next one. -/
namespace Containerfile

/-- What a stage is built on. -/
inductive Base where
  | external (image : ImageName)
  /-- An earlier stage. -/
  | stage (index : Nat)
  | scratch
  deriving DecidableEq, Repr

/-- A stage of a build. -/
structure Stage where
  index : Nat
  /-- The FROM that opens the stage. -/
  opening : BaseImage
  /-- The lines of the FROM. -/
  openingLines : LineSpan
  base : Base
  /-- The instructions after the FROM. -/
  body : List Entry := []
  /-- The bindings at the end of the stage. -/
  bindings : Layer := []
  deriving DecidableEq, Repr

namespace Stage

/-- The name that the FROM gives the stage, if it gives one. -/
def givenName (s : Stage) : Option Text := s.opening.stageName

/-- The FROM as an entry. -/
def openingEntry (s : Stage) : Entry := ⟨.fromImage s.opening, s.openingLines⟩

/-- All instructions of a stage, the FROM first. -/
def entries (s : Stage) : List Entry := s.openingEntry :: s.body

/-- What a stage is called: its name, or else its index. -/
def name (s : Stage) : Text := s.givenName.getD (Nat.toDigits 10 s.index)

/-- The text of a stage. -/
def render (s : Stage) : Text := Text.join ['\n'] (s.entries.map Entry.render)

/-- Adds an instruction at the end. -/
def add (e : Entry) (s : Stage) : Stage := { s with body := s.body ++ [e] }

end Stage

end Containerfile
