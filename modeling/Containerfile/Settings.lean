import Containerfile.Json.Reader

/-! # Settings of a reading

Three switches, which may be given as JSON: an object whose missing fields keep their defaults and
whose unknown fields are skipped, or an array that gives them in order. -/
namespace Containerfile

/-- How a build file is read. -/
structure Settings where
  /-- Honour a leading escape directive. -/
  escapeDirective : Bool := true
  /-- Record the errors of single instructions and read on. -/
  bestEffort : Bool := false
  /-- Replace references to variables by their values. -/
  expandVariables : Bool := true
  deriving DecidableEq, Repr

namespace Settings

/-- The switches given so far while reading. -/
structure Given where
  escapeDirective : Option Bool := none
  bestEffort : Option Bool := none
  expandVariables : Option Bool := none

/-- Fills in defaults. -/
def Given.complete (g : Given) : Settings :=
  let d : Settings := {}
  { escapeDirective := g.escapeDirective.getD d.escapeDirective
    bestEffort := g.bestEffort.getD d.bestEffort
    expandVariables := g.expandVariables.getD d.expandVariables }

/-- The switches by name. -/
inductive Field where
  | escapeDirective
  | bestEffort
  | expandVariables
  deriving DecidableEq

namespace Field

/-- The name of a switch. -/
def name : Field → String
  | escapeDirective => "escapeDirective"
  | bestEffort => "bestEffort"
  | expandVariables => "expandVariables"

/-- The switches in order. -/
def all : List Field := [escapeDirective, bestEffort, expandVariables]

/-- The switch of a name. -/
def ofName? (t : Text) : Option Field := all.find? fun f => f.name.toList == t

end Field

/-- What was given for a switch. -/
def Given.get (g : Given) : Field → Option Bool
  | .escapeDirective => g.escapeDirective
  | .bestEffort => g.bestEffort
  | .expandVariables => g.expandVariables

/-- Gives a switch. -/
def Given.set (g : Given) (b : Bool) : Field → Given
  | .escapeDirective => { g with escapeDirective := some b }
  | .bestEffort => { g with bestEffort := some b }
  | .expandVariables => { g with expandVariables := some b }

open Json

/-- Reads the fields of an object, at most `fuel` of them, up to the brace. -/
def readFields (g : Given) (first : Bool) : Nat → Text → Except Halt (Given × Text)
  | 0, t => .error (.at .endInObject t)
  | fuel + 1, t => do
    match ← nextKey first t with
    | (none, t) => return (g, t)
    | (some key, t) =>
      match Field.ofName? key with
      | none => readFields g false fuel (← skipValue (← skipColon t))
      | some f =>
        if (g.get f).isSome then .error (.before (.duplicateField f.name) (skipBrace t))
        else
          let (b, t) ← wantBool (← skipColon t)
          readFields (g.set b f) false fuel t

/-- Reads the elements of an array in the order of the switches, up to the bracket or to the end of
the switches. -/
def readInOrder (g : Given) (first : Bool) : List Field → Text → Except Halt (Given × Text)
  | [], t => .ok (g, t)
  | f :: fields, t => do
    match ← nextElement first t with
    | .close t => return (g, t)
    | .element t =>
      let (b, t) ← wantBool t
      readInOrder (g.set b f) false fields t

/-- Reads settings that are the whole text. -/
def scan (t : Text) : Except Halt Settings :=
  match skipGaps t with
  | [] => .error (.at .endInValue [])
  | '[' :: t => do
    let (g, rest) ← readInOrder {} true Field.all t
    endText (← endArray rest)
    return g.complete
  | '\x7b' :: t => do
    let (g, rest) ← readFields {} true (t.length + 1) t
    endText (skipBrace rest)
    return g.complete
  | t => .error (refuse "struct ParserConfig" t)

/-- Reads settings from JSON text, or says what is wrong and where. -/
def read (t : Text) : Except Json.Fault Settings := (scan t).mapError (·.locate t)

/-- The settings that record errors and read on. -/
def tolerant : Settings := { bestEffort := true }

/-- The settings as JSON. -/
def toJson (s : Settings) : Json :=
  .obj [("escapeDirective", .bool s.escapeDirective), ("bestEffort", .bool s.bestEffort),
    ("expandVariables", .bool s.expandVariables)]

end Settings

end Containerfile
