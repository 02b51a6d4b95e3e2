import Containerfile.Lint

/-! # Stages as rows

A stage begins with the FROM that names it, and so its name and its first instruction belong
together.  In a row they do not: it has a name and a list of instructions, which may be empty
(`Row`).  The lints of rows look into that list, and they stop where they ask for a first
instruction and there is none (`Stop`).

A stage is a row whose first instruction is its FROM (`Stage.row`), and the lints of such rows are
those of the stages (`Row.lintAll_stages`). -/
namespace Containerfile

/-- Why a step on the lists stops. -/
inductive Stop where
  /-- A failure that a reading reports. -/
  | failure (f : Failure)
  /-- The stage that was opened is not the one whose layer was begun. -/
  | outOfStep (opened entered : Nat)
  /-- A stage cannot be opened without a name. -/
  | unopened (f : Failure)
  /-- A stage has no first instruction. -/
  | noInstruction
  deriving DecidableEq, Repr

/-- A stage with all its instructions, the FROM among them, in one list. -/
structure Row where
  index : Nat
  name : Option Text
  base : Base
  instructions : List Entry
  bindings : Layer := []
  deriving DecidableEq, Repr

namespace Row

/-- Adds an instruction at the end. -/
def add (e : Entry) (r : Row) : Row := { r with instructions := r.instructions ++ [e] }

/-- What a stage is called: its name, or else its index. -/
def title (r : Row) : Text := r.name.getD (Nat.toDigits 10 r.index)

/-! ## Lints -/

open Lint

/-- A stage name with capitals, which is found on the lines of the first instruction. -/
def casing (r : Row) : Except Stop (List Diagnostic) :=
  match r.name with
  | some name =>
    if name.any Char.isUpper then
      match r.instructions[0]? with
      | some e =>
        .ok [Rule.stageNameCasing.warn s!"stage name '{str name}' should be lowercase" e.lines]
      | none => .error .noInstruction
    else .ok []
  | none => .ok []

/-- Instructions of a keyword before the last one. -/
def superseded (r : Row) (k : Keyword) : List Diagnostic :=
  (r.instructions.filter (·.keyword == k)).dropLast.map fun e =>
    Rule.multipleInstructionsDisallowed.warn
      s!"multiple {k.name} instructions in stage {str r.title}; only the last one takes effect"
      e.lines

/-- The findings about a single stage. -/
def lint (skipped : List Text) (r : Row) : Except Stop (List Diagnostic) := do
  let found ← if Rule.stageNameCasing.enabled skipped then r.casing else pure []
  return found ++
    Rule.multipleInstructionsDisallowed.guarded skipped (lastOneWins.flatMap r.superseded) ++
    Rule.maintainerDeprecated.guarded skipped
      ((r.instructions.filter (·.keyword == .maintainer)).map fun e =>
        Rule.maintainerDeprecated.warn "MAINTAINER is deprecated; use LABEL maintainer=... instead"
          e.lines)

/-- Triggers in a stage that nothing is built on. -/
def triggers (r : Row) : List Diagnostic :=
  (r.instructions.filter (·.keyword == .onbuild)).map fun e =>
    Rule.onbuildInFinalStage.warn
      "ONBUILD in the final stage only runs when another build uses this image" e.lines

/-- The findings about all stages: those about each one in order, then those about the last one. -/
def lintAll (skipped : List Text) (rows : List Row) : Except Stop (List Diagnostic) := do
  let found ← rows.mapM (Row.lint skipped)
  return found.flatten ++
    Rule.onbuildInFinalStage.guarded skipped ((rows.getLast?.map triggers).getD [])

end Row

/-- A stage as a row. -/
def Stage.row (s : Stage) : Row := ⟨s.index, s.givenName, s.base, s.entries, s.bindings⟩

namespace Row

open Lint

/-- A row that is a stage has a first instruction. -/
theorem casing_stage (s : Stage) : s.row.casing = .ok (Lint.casing s) := by
  have hname : s.row.name = s.givenName := rfl
  rw [casing, Lint.casing, hname]
  cases s.givenName with
  | none => rfl
  | some name =>
    dsimp only
    split
    · rfl
    · rfl

theorem lint_stage (skipped : List Text) (s : Stage) :
    s.row.lint skipped = .ok (Lint.ofStage skipped s) := by
  have hguarded : Rule.stageNameCasing.guarded skipped (Lint.casing s) =
      if Rule.stageNameCasing.enabled skipped then Lint.casing s else [] := rfl
  rw [lint, casing_stage, Lint.ofStage, hguarded]
  split
  · rfl
  · rfl

/-- **Linting the rows of stages finds what linting the stages finds.** -/
theorem lintAll_stages (skipped : List Text) (stages : List Stage) :
    lintAll skipped (stages.map Stage.row) = .ok (Lint.run skipped stages) := by
  have heach : (stages.map Stage.row).mapM (lint skipped) =
      .ok (stages.map (Lint.ofStage skipped)) := by
    induction stages with
    | nil => rfl
    | cons s stages ih =>
      rw [List.map_cons, List.mapM_cons, lint_stage, ih]
      rfl
  have htriggers : ((stages.map Stage.row).getLast?.map triggers).getD [] =
      (stages.getLast?.map Lint.triggers).getD [] := by
    rw [List.getLast?_map, Option.map_map]
    rfl
  rw [lintAll, heach, Lint.run, List.flatMap_def, ← htriggers]
  rfl

end Row

end Containerfile
