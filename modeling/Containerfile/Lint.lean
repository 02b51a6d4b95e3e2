import Containerfile.Diagnostic
import Containerfile.Stage

/-! # Lints

Warnings about stages that can be read but are likely not meant that way.  Each rule can be turned
off by its name, and all of them together by `all`. -/
namespace Containerfile.Lint

/-- The rules. -/
inductive Rule where
  | stageNameCasing
  | multipleInstructionsDisallowed
  | maintainerDeprecated
  | onbuildInFinalStage
  deriving DecidableEq, Repr

/-- The name of a rule. -/
def Rule.name : Rule → String
  | stageNameCasing => "StageNameCasing"
  | multipleInstructionsDisallowed => "MultipleInstructionsDisallowed"
  | maintainerDeprecated => "MaintainerDeprecated"
  | onbuildInFinalStage => "OnbuildInFinalStage"

/-- Whether a rule is on when some are skipped. -/
def Rule.enabled (skipped : List Text) (r : Rule) : Bool :=
  !skipped.any fun s => Text.sameName s "all".toList || Text.sameName s r.name.toList

/-- A warning under a rule. -/
def Rule.warn (r : Rule) (message : String) (lines : LineSpan) : Diagnostic :=
  .warning r.name message lines

/-- The findings of a rule, if it is on. -/
def Rule.guarded (skipped : List Text) (r : Rule) (found : List Diagnostic) : List Diagnostic :=
  if r.enabled skipped then found else []

/-- The instructions of which only the last one in a stage counts. -/
def lastOneWins : List Keyword := [.cmd, .entrypoint, .healthcheck]

/-- A stage name with capitals. -/
def casing (s : Stage) : List Diagnostic :=
  match s.givenName with
  | some name =>
    if name.any Char.isUpper then
      [Rule.stageNameCasing.warn s!"stage name '{str name}' should be lowercase" s.openingLines]
    else []
  | none => []

/-- Instructions of a keyword before the last one. -/
def superseded (s : Stage) (k : Keyword) : List Diagnostic :=
  (s.entries.filter (·.keyword == k)).dropLast.map fun e =>
    Rule.multipleInstructionsDisallowed.warn
      s!"multiple {k.name} instructions in stage {str s.name}; only the last one takes effect"
      e.lines

/-- Instructions of a keyword that has gone out of use. -/
def deprecated (s : Stage) : List Diagnostic :=
  (s.entries.filter (·.keyword == .maintainer)).map fun e =>
    Rule.maintainerDeprecated.warn "MAINTAINER is deprecated; use LABEL maintainer=... instead"
      e.lines

/-- Triggers in a stage that nothing is built on. -/
def triggers (s : Stage) : List Diagnostic :=
  (s.entries.filter (·.keyword == .onbuild)).map fun e =>
    Rule.onbuildInFinalStage.warn
      "ONBUILD in the final stage only runs when another build uses this image" e.lines

/-- The findings about a single stage. -/
def ofStage (skipped : List Text) (s : Stage) : List Diagnostic :=
  Rule.stageNameCasing.guarded skipped (casing s) ++
    Rule.multipleInstructionsDisallowed.guarded skipped (lastOneWins.flatMap (superseded s)) ++
    Rule.maintainerDeprecated.guarded skipped (deprecated s)

/-- The findings about the stages of a file: those about each one in order, then those about the
last one. -/
def run (skipped : List Text) (stages : List Stage) : List Diagnostic :=
  stages.flatMap (ofStage skipped) ++
    Rule.onbuildInFinalStage.guarded skipped ((stages.getLast?.map triggers).getD [])

end Containerfile.Lint
