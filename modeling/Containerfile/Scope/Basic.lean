import Containerfile.Draft
import Containerfile.Expansion.Basic

/-! # Scopes

The variables that can be seen at a place in a file: those of the current stage, and behind them
those declared before the first stage.  A new stage takes over the ENV variables of the stage before
it and none of its ARGs. -/
namespace Containerfile

/-- The layers of bindings up to a place in a file. -/
structure Scope where
  /-- The escape character of text that is expanded. -/
  escape : Char
  global : Layer := []
  stages : Draft Layer := .empty
  deriving DecidableEq, Repr

namespace Scope

/-- The index of the current stage. -/
def currentIndex (s : Scope) : Option Nat :=
  match s.stages with
  | .empty => none
  | .writing settled _ => some settled.length

/-- Where a binding made now can be seen. -/
def extent (s : Scope) : Extent :=
  match s.currentIndex with
  | none => .global
  | some index => .stage index

/-- The layer that bindings are made in. -/
def current (s : Scope) : Layer := s.stages.current?.getD s.global

/-- The bindings that a stage takes over from the layer before it. -/
def inherited (index : Nat) (l : Layer) : Layer :=
  (l.filter fun b => b.origin == .env).map fun b => { b with extent := .stage index }

/-- Opens the next stage. -/
def enterStage (s : Scope) : Scope :=
  { s with
    stages := s.stages.begin (inherited s.stages.size (s.stages.current?.getD [])) }

/-- Makes a binding in the current layer. -/
def bind (s : Scope) (b : Binding) : Scope :=
  match s.stages with
  | .empty => { s with global := s.global.bind b }
  | .writing .. => { s with stages := s.stages.modify (Layer.bind b) }

/-- The value of an ARG.  In a stage an ARG without default has the global value of its name. -/
def argValue (s : Scope) (name : Text) (default : Option Text) : Option Text :=
  match default, s.stages with
  | some v, _ => some v
  | none, .empty => none
  | none, .writing .. => (s.global.get? name).bind Binding.value

/-- Declares an ARG. -/
def declareArg (s : Scope) (name : Text) (default : Option Text) (index : Nat) : Scope :=
  s.bind ⟨name, s.argValue name default, .arg, index, s.extent⟩

/-- Declares an ENV variable. -/
def declareEnv (s : Scope) (name value : Text) (index : Nat) : Scope :=
  s.bind ⟨name, some value, .env, index, s.extent⟩

/-- The binding of a name that can be seen. -/
def lookup (s : Scope) (name : Text) : Option Binding :=
  ((s.stages.current?.getD []).get? name).or (s.global.get? name)

/-- The bindings of a stage; none if there is no such stage. -/
def bindingsOf (s : Scope) (index : Nat) : Layer := (s.stages.toList[index]?).getD []

/-- Fills in the variables that can be seen. -/
def expand (s : Scope) (mode : ExpandMode) (t : Text) : Expansion :=
  .ofText s.escape mode s.lookup none t

/-- Fills in the variables declared before the first stage. -/
def expandGlobal (s : Scope) (t : Text) : Expansion :=
  .ofText s.escape .word s.global.get? none t

end Scope

end Containerfile
