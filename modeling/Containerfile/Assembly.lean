import Containerfile.Aliases
import Containerfile.Failure
import Containerfile.Scope.Basic
import Containerfile.Stage

/-! # Assembling stages

Instructions are put together into stages one at a time.  A step that fails changes nothing.  The
base of a stage that names no stage so far is taken for an image; at the end it is looked at again,
since a later stage of that name would make it a reference that comes too early. -/
namespace Containerfile

/-- The name under which the base of a stage is to be looked at again: an image that could be a
stage. -/
def Base.unresolved? : Base → Option Text
  | .external image => if image.isBare then some image.repository else none
  | _ => none

/-- The stages put together so far. -/
structure Assembly where
  stages : Draft Stage := .empty
  /-- The bases to be looked at again, with the lines of their FROMs. -/
  unresolved : List (Text × LineSpan) := []
  deriving DecidableEq, Repr

namespace Assembly

/-- The names of the stages. -/
def aliases (a : Assembly) : Aliases := a.stages.toList.map Stage.givenName

/-- Whether there is a stage. -/
def hasStage (a : Assembly) : Bool := !a.stages.isEmpty

/-- What a new stage is built on: an earlier stage, nothing, or an image. -/
def resolveBase (a : Assembly) (image : ImageName) : Base :=
  if image.isBare then
    match a.aliases.position image.repository with
    | some index => .stage index
    | none =>
      if Text.sameName image.repository "scratch".toList then .scratch else .external image
  else .external image

/-- The name that a FROM would give its stage, if it is taken. -/
def takenName? (a : Assembly) (opening : BaseImage) : Option Text :=
  opening.stageName.filter fun name => (a.aliases.position name).isSome

/-- Begins a stage with a FROM.  The name must not be taken. -/
def openStage (a : Assembly) (opening : BaseImage) (lines : LineSpan) : Except Failure Assembly :=
  match a.takenName? opening with
  | some name => .error (.duplicateAlias name lines)
  | none =>
    let base := a.resolveBase opening.image
    .ok
      { stages := a.stages.begin
          { index := a.stages.size
            opening := opening
            openingLines := lines
            base := base }
        unresolved := a.unresolved ++ (base.unresolved?.map fun name => (name, lines)).toList }

/-- Begins a stage with an instruction, which must be a FROM. -/
def openWith (a : Assembly) (e : Entry) : Except Failure Assembly :=
  match e.instruction with
  | .fromImage opening => a.openStage opening e.lines
  | _ => .error (.malformed e.keyword .stageWithoutFrom e.lines)

/-- Adds an instruction to the current stage. -/
def push (a : Assembly) (e : Entry) : Except Failure Assembly :=
  if a.hasStage then .ok { a with stages := a.stages.modify (Stage.add e) }
  else .error (.beforeFirstFrom e.keyword e.lines)

/-- The failures that show only when all stages are known: bases that name the same or a later
stage. -/
def lateFailures (a : Assembly) : List Failure :=
  (a.unresolved.filter fun u => (a.aliases.position u.1).isSome).map fun u =>
    .unknownStage u.1 u.2

/-- The stages with the bindings at their ends. -/
def finish (a : Assembly) (scope : Scope) : List Stage :=
  a.stages.toList.map fun s => { s with bindings := scope.bindingsOf s.index }

end Assembly

end Containerfile
