import Containerfile.Grammar.Basic
import Containerfile.Instruction.Basic

/-! # Grammars of files

FROM, COPY, ADD, VOLUME and WORKDIR: the instructions that name images, stages and paths. -/
namespace Containerfile.Grammar

/-! ## FROM -/

/-- Whether a text can name a stage: a letter, then letters, digits, `-`, `_` and `.`. -/
def isStageName : Text → Bool
  | [] => false
  | c :: t => c.isAlpha && t.all fun d => d.isAlphanum || d == '-' || d == '_' || d == '.'

/-- The image and the name of the stage among the words of FROM. -/
def baseWords : List Text → Except Fault (Text × Option Text)
  | [] => .error .missingImage
  | [image] => .ok (image, none)
  | [image, as, name] =>
    if Text.sameName as "AS".toList then .ok (image, some name) else .error .imageArity
  | [_, as] => .error (if Text.sameName as "AS".toList then .missingStageName else .imageArity)
  | _ => .error .imageArity

/-- Reads FROM.  Image and platform see only the variables declared before the first stage; the name
of the stage is not expanded. -/
def fromImage (s : Statement) : Grammar BaseImage := do
  checkFlags s ["platform"] []
  let platform ← flagValue s "platform" .globalOnly
  match baseWords (← rawWords s.text) with
  | .error fault => malformed s fault
  | .ok (imageWord, stageName) =>
    let value ← wordValue .globalOnly imageWord
    if value.isEmpty then malformed s (.emptyImage imageWord)
    else
      match ImageName.read value with
      | .error fault => malformed s (.badImage fault)
      | .ok image =>
        match stageName with
        | none => return ⟨image, platform, none⟩
        | some name =>
          if isStageName name then return ⟨image, platform, some name⟩
          else malformed s (.badStageName name)

/-! ## COPY and ADD -/

/-- The paths of a statement, as words or as items of a JSON array, and whether they are the
latter. -/
def paths (s : Statement) : Grammar (List Text × Bool) :=
  match s.args with
  | .exec items => do return (← items.mapM' (expand .everywhere .element), true)
  | .text t => do return (← words t, false)

/-- What COPY takes files from: an earlier stage, or an image if the value cannot name a stage.  In
a trigger that is left open. -/
def source (s : Statement) (value : Text) : Grammar StageRef := do
  let cx ← context
  if cx.deferred then return .deferred value
  else
    match cx.aliases.resolveEarlier value with
    | some index => return .stage index value
    | none =>
      if ImageName.isQualified value then
        match ImageName.read value with
        | .ok image => return .image image
        | .error fault => malformed s (.badImage fault)
      else fail (.unknownStage value s.lines)

/-- Puts together what COPY and ADD have in common: at least one source, then the destination. -/
def transfer (s : Statement) (chown chmod : Option Text) (link : Bool) (exclude : List Text) :
    Grammar Transfer := do
  let (paths, execForm) ← paths s
  match paths.getLast? with
  | none => malformed s (.tooFewPaths s.keyword 0)
  | some destination =>
    if paths.length < 2 then malformed s (.tooFewPaths s.keyword paths.length)
    else return ⟨paths.dropLast, destination, chown, chmod, link, exclude, s.heredocs, execForm⟩

/-- Reads COPY. -/
def copy (s : Statement) : Grammar Step := do
  checkFlags s ["from", "chown", "chmod", "link", "parents", "exclude"] ["exclude"]
  -- flags are read in a fixed order, whatever order they are written in
  let from? ←
    match ← flagValue s "from" .everywhere with
    | none => pure none
    | some value => some <$> source s value
  let chown ← flagValue s "chown" .everywhere
  let chmod ← flagValue s "chmod" .everywhere
  let link ← flagSwitch s "link"
  let parents ← flagSwitch s "parents"
  let exclude ← flagValues s "exclude" .everywhere
  return .copy (← transfer s chown chmod link exclude) from? parents

/-- Reads ADD. -/
def add (s : Statement) : Grammar Step := do
  checkFlags s ["chown", "chmod", "checksum", "keep-git-dir", "link", "exclude"] ["exclude"]
  let chown ← flagValue s "chown" .everywhere
  let chmod ← flagValue s "chmod" .everywhere
  let checksum ← flagValue s "checksum" .everywhere
  let keepGitDir ← flagSwitch s "keep-git-dir"
  let link ← flagSwitch s "link"
  let exclude ← flagValues s "exclude" .everywhere
  return .add (← transfer s chown chmod link exclude) checksum keepGitDir

/-! ## VOLUME and WORKDIR -/

/-- Reads VOLUME. -/
def volume (s : Statement) : Grammar Step := do
  let (paths, execForm) ← paths s
  if paths.isEmpty then malformed s .missingPath
  else if paths.any fun p => p.trim.isEmpty then malformed s .emptyPath
  else return .volume paths execForm

/-- Reads WORKDIR.  The rest of the line is one path. -/
def workdir (s : Statement) : Grammar Step := do
  let path ← wordValue .everywhere s.text.trim
  if path.isEmpty then malformed s .missingDirectory else return .workdir path

end Containerfile.Grammar
