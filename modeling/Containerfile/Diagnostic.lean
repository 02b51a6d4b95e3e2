import Containerfile.Failure

/-! # Diagnostics

Findings about a build file: warnings, and failures that were recorded.  A diagnostic has a JSON
form that holds all of it. -/
namespace Containerfile

/-- How grave a finding is. -/
inductive Severity where
  | error
  | warning
  deriving DecidableEq, Repr

/-- The name of a severity. -/
def Severity.name : Severity → String
  | error => "error"
  | warning => "warning"

/-- A finding. -/
structure Diagnostic where
  severity : Severity
  /-- The name of the rule or of the kind of failure. -/
  code : String
  message : String
  /-- The lines it is about, unless it is about the document. -/
  lines : Option LineSpan
  deriving DecidableEq, Repr

/-- The JSON form of a span. -/
def LineSpan.toJson (s : LineSpan) : Json := .obj [("start", .nat s.first), ("end", .nat s.last)]

/-- The span of a JSON form. -/
def LineSpan.ofJson? : Json → Option LineSpan
  | .obj [("start", .nat first), ("end", .nat last)] =>
    if h : first ≤ last then some ⟨first, last, h⟩ else none
  | _ => none

namespace Diagnostic

/-- A warning about some lines. -/
def warning (code message : String) (lines : LineSpan) : Diagnostic :=
  ⟨.warning, code, message, some lines⟩

/-- The finding that a failure is. -/
def ofFailure (f : Failure) : Diagnostic := ⟨.error, f.code, f.message, f.lines⟩

/-- Whether the finding is an error. -/
def isError (d : Diagnostic) : Bool := d.severity == .error

/-- The finding on one line. -/
def render (d : Diagnostic) : String :=
  match d.lines with
  | some lines => s!"{d.severity.name} [{d.code}] {lines.render}: {d.message}"
  | none => s!"{d.severity.name} [{d.code}] {d.message}"

/-- The JSON form of a finding. -/
def toJson (d : Diagnostic) : Json :=
  .obj [("severity", .string d.severity.name), ("code", .string d.code),
    ("message", .string d.message), ("lines", .opt LineSpan.toJson d.lines)]

/-- The finding of a JSON form. -/
def ofJson? : Json → Option Diagnostic
  | .obj [("severity", .text severity), ("code", .text code), ("message", .text message),
      ("lines", lines)] => do
    let severity ←
      if severity = Severity.error.name.toList then some Severity.error
      else if severity = Severity.warning.name.toList then some .warning
      else none
    match lines with
    | .null => return ⟨severity, str code, str message, none⟩
    | lines => return ⟨severity, str code, str message, some (← LineSpan.ofJson? lines)⟩
  | _ => none

end Diagnostic

end Containerfile
