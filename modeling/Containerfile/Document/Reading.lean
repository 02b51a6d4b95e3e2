import Containerfile.Assembly
import Containerfile.Document.Basic
import Containerfile.Grammar.Instruction
import Containerfile.Lint
import Containerfile.Settings

/-! # Reading documents

Logical lines are taken one at a time, each in the light of the variables and stages of those before
it.  A line that fails leaves variables, stages and instructions as they were.  A tolerant reading
records the failures that it can go on after. -/
namespace Containerfile

/-- What is known between two logical lines. -/
structure Progress where
  scope : Scope := { escape := defaultEscape }
  assembly : Assembly := {}
  /-- The ARGs before the first stage. -/
  globals : List Entry := []
  diagnostics : List Diagnostic := []
  /-- The number of logical lines so far, those that failed included. -/
  count : Nat := 0
  deriving DecidableEq, Repr

/-- The name of the rule about references to names that nothing declares. -/
def undeclaredVariable : String := "UndeclaredVariable"

/-- The warning about a reference to a name that nothing declares. -/
def undeclaredWarning (lines : LineSpan) (name : Text) : Diagnostic :=
  .warning undeclaredVariable s!"variable '{str name}' is referenced but never declared" lines

/-- A file needs an instruction, and a stage. -/
def checkDocument (count : Nat) (stages : List Stage) : Option Failure :=
  if count = 0 then some .emptyDocument
  else if stages.isEmpty then some .missingFrom
  else none

/-- What becomes of a place between two logical lines: the next place, and the failure that stands
in the way of going on there, if one does. -/
abbrev Advance := Progress × Option Failure

namespace Progress

/-- Records findings. -/
def report (p : Progress) (ds : List Diagnostic) : Progress :=
  { p with diagnostics := p.diagnostics ++ ds }

/-- Whether a failure is recorded instead of ending the reading. -/
def tolerates (settings : Settings) (f : Failure) : Bool :=
  settings.bestEffort && f.recoverable

/-- Records a failure if that is allowed. -/
def recover (settings : Settings) (p : Progress) (f : Failure) : Advance :=
  if tolerates settings f then (p.report [.ofFailure f], none) else (p, some f)

/-- Declares the names that an instruction declares. -/
def declare (scope : Scope) (index : Nat) : Instruction → Scope
  | .step (.arg args) => args.foldl (fun sc a => sc.declareArg a.name a.default index) scope
  | .step (.env vars) => vars.foldl (fun sc v => sc.declareEnv v.key v.value index) scope
  | _ => scope

/-- Opens a stage.  If its name is taken and that can be recorded, the stage is opened without a
name. -/
def openStage (settings : Settings) (p : Progress) (base : BaseImage) (lines : LineSpan) :
    Advance :=
  let opened (p : Progress) (a : Assembly) : Progress :=
    { p with assembly := a, scope := p.scope.enterStage }
  match p.assembly.openStage base lines with
  | .ok a => (opened p a, none)
  | .error f =>
    match p.recover settings f with
    | (p, some f) => (p, some f)
    | (p, none) =>
      -- without a name nothing can be taken
      match p.assembly.openStage { base with stageName := none } lines with
      | .ok a => (opened p a, none)
      | .error f => (p, some f)

/-- Takes an instruction that was read from the logical line `index`. -/
def place (settings : Settings) (p : Progress) (index : Nat) (e : Entry) : Advance :=
  match e.instruction with
  | .fromImage base => p.openStage settings base e.lines
  | i =>
    if !p.assembly.hasStage && i.keyword == .arg then
      ({ p with scope := declare p.scope index i, globals := p.globals ++ [e] }, none)
    else
      match p.assembly.push e with
      | .ok a => ({ p with assembly := a, scope := declare p.scope index i }, none)
      | .error f => (p, some f)

/-- The context of a logical line. -/
def context (settings : Settings) (p : Progress) : Context :=
  { escape := p.scope.escape
    scope := if settings.expandVariables then some p.scope else none
    aliases := p.assembly.aliases
    deferred := false }

/-- Takes a logical line. -/
def take (settings : Settings) (p : Progress) (l : LogicalLine) : Advance :=
  let index := p.count
  let p := { p with count := p.count + 1 }
  match Statement.ofLine l with
  | .error f => (p, some f)
  | .ok s =>
    let outcome := Grammar.instruction s (p.context settings)
    let p := p.report (outcome.undeclared.map (undeclaredWarning s.lines))
    match outcome.result with
    | .error f => (p, some f)
    | .ok i => p.place settings index ⟨i, s.lines⟩

/-- Takes logical lines up to the first failure that is not recorded. -/
def takeAll (settings : Settings) (p : Progress) : List LogicalLine → Advance
  | [] => (p, none)
  | l :: ls =>
    match p.take settings l with
    | (p, none) => takeAll settings p ls
    | (p, some f) =>
      match p.recover settings f with
      | (p, none) => takeAll settings p ls
      | (p, some f) => (p, some f)

/-- Records failures up to the first one that cannot be. -/
def recoverAll (settings : Settings) (p : Progress) : List Failure → Advance
  | [] => (p, none)
  | f :: fs =>
    match p.recover settings f with
    | (p, none) => recoverAll settings p fs
    | (p, some f) => (p, some f)

/-- The document after the last logical line. -/
def finish (settings : Settings) (p : Progress) (directives : Directives) :
    Except (Failure × List Diagnostic) Document :=
  match p.recoverAll settings p.assembly.lateFailures with
  | (p, some f) => .error (f, p.diagnostics)
  | (p, none) =>
    let stages := p.assembly.finish p.scope
    match checkDocument p.count stages with
    | some f => .error (f, p.diagnostics)
    | none =>
      .ok { directives := directives
            globalArgs := p.scope.global
            globals := p.globals
            stages := stages
            diagnostics := p.diagnostics ++ Lint.run directives.skippedChecks stages }

end Progress

/-- What comes of a reading that cannot fail: perhaps a document, and everything that was found. -/
structure ParseOutcome where
  document : Option Document
  diagnostics : List Diagnostic
  deriving DecidableEq, Repr

namespace Document

/-- Reads lines; a failure comes with what was found before it. -/
def readFully (settings : Settings) (ts : List Text) :
    Except (Failure × List Diagnostic) Document :=
  let layout := Layout.read settings.escapeDirective ts
  let start : Progress :=
    { scope := { escape := layout.preamble.escape }
      diagnostics := layout.preamble.warnings }
  match start.takeAll settings layout.lines with
  | (p, some f) => .error (f, p.diagnostics)
  | (p, none) =>
    match layout.failure with
    | some f => .error (f, p.diagnostics)
    | none => p.finish settings layout.preamble.directives

/-- Reads lines. -/
def readLines (settings : Settings) (ts : List Text) : Except Failure Document :=
  (readFully settings ts).mapError Prod.fst

/-- Reads text. -/
def read (settings : Settings) (t : Text) : Except Failure Document := readLines settings t.lines

/-- Reads bytes, which must be UTF-8. -/
def readBytes (settings : Settings) (bytes : List Nat) : Except Failure Document :=
  match Utf8.decode bytes with
  | .ok t => read settings t
  | .error fault => .error (.invalidEncoding fault)

/-- Reads text without failing: a failure is the last finding. -/
def outcome (settings : Settings) (t : Text) : ParseOutcome :=
  match readFully settings t.lines with
  | .ok d => ⟨some d, d.diagnostics⟩
  | .error (f, ds) => ⟨none, ds ++ [.ofFailure f]⟩

end Document

end Containerfile
