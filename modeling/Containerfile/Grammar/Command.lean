import Containerfile.Duration.Reader
import Containerfile.Grammar.Basic
import Containerfile.Instruction.Basic

/-! # Grammars of commands

RUN, CMD, ENTRYPOINT, SHELL and HEALTHCHECK.  Shell commands are expanded as a whole and keep their
quotes; the items of a JSON array are taken as they are. -/
namespace Containerfile.Grammar

/-- The command of CMD and ENTRYPOINT. -/
def command (s : Statement) : Grammar Command :=
  match s.args with
  | .exec items => pure (.exec items)
  | .text t =>
    if t.trim.isEmpty then malformed s (.missingArgument s.keyword)
    else .shell <$> expand .everywhere .shell t.trim

/-! ## RUN -/

/-- The types that a mount can have. -/
def mountTypes : List String := ["bind", "cache", "tmpfs", "secret", "ssh"]

/-- A field of a mount: its name in small letters, and its value if it has one. -/
def mountField (t : Text) : Text × Option Text :=
  match Text.splitOnce '=' t with
  | some (key, value) => (key.trim.lower, some value.trim)
  | none => (t.lower, none)

/-- Adds a field to a mount.  The last type and the last target count. -/
def addField (m : Mount) (field : Text × Option Text) : Mount :=
  if field.1 = "type".toList then { m with type := field.2.getD "bind".toList }
  else if ["target", "dst", "destination"].any (·.toList == field.1) then
    { m with target := field.2 }
  else { m with options := m.options ++ [field] }

/-- Reads a mount, as in `type=cache,target=/root/.cache`.  The type is `bind` unless given, and
only secrets and agents do without a target. -/
def readMount (t : Text) : Except Fault Mount :=
  let fields := ((t.splitAll ',').map Text.trim).filter (!·.isEmpty)
  let m := (fields.map mountField).foldl addField ⟨"bind".toList, none, [], t⟩
  if !mountTypes.any (·.toList == m.type) then .error (.badMountType m.type)
  else if (m.target.getD []).isEmpty && !(["secret", "ssh"].any (·.toList == m.type)) then
    .error (.missingMountTarget m.type)
  else .ok m

/-- Reads a network mode. -/
def networkMode? (t : Text) : Option NetworkMode :=
  [.default, .none, .host].find? fun m : NetworkMode => m.name.toList == t

/-- Reads a security mode. -/
def securityMode? (t : Text) : Option SecurityMode :=
  [.sandbox, .insecure].find? fun m : SecurityMode => m.name.toList == t

/-- Reads a value that may be missing; `fault` is what is wrong if it cannot be read. -/
def readOptional (s : Statement) (read : Text → Option α) (fault : Text → Fault) :
    Option Text → Grammar (Option α)
  | none => pure none
  | some t =>
    match read t with
    | some a => pure (some a)
    | none => malformed s (fault t)

/-- Reads RUN.  The command may be missing if there is a heredoc. -/
def run (s : Statement) : Grammar Step := do
  checkFlags s ["mount", "network", "security"] ["mount"]
  let mounts ← (← flagValues s "mount" .everywhere).mapM' fun t =>
    match readMount t with
    | .ok m => pure m
    | .error fault => malformed s fault
  let network ← readOptional s networkMode? .badNetwork (← flagValue s "network" .everywhere)
  let security ← readOptional s securityMode? .badSecurity (← flagValue s "security" .everywhere)
  let command : Command ←
    match s.args with
    | .exec items => pure (.exec items)
    | .text t =>
      if t.trim.isEmpty && s.heredocs.isEmpty then malformed s .missingCommand
      else .shell <$> expand .everywhere .shell t.trim
  return .run ⟨command, mounts, network, security, s.heredocs⟩

/-! ## SHELL -/

/-- Reads SHELL. -/
def shell (s : Statement) : Grammar Step :=
  match s.args with
  | .exec [] => malformed s .emptyShell
  | .exec items => pure (.shell items)
  | .text _ => malformed s .shellNotExec

/-! ## HEALTHCHECK -/

/-- Reads a duration given by a flag. -/
def duration (s : Statement) (name : String) : Grammar (Option Duration) := do
  match ← flagValue s name .everywhere with
  | none => return none
  | some t =>
    match Duration.read t with
    | .ok d => return some d
    | .error fault => malformed s (.badDuration name.toList t fault)

/-- Reads the number of retries. -/
def retries (s : Statement) : Grammar (Option Nat) := do
  match ← flagValue s "retries" .everywhere with
  | none => return none
  | some t =>
    match Numeral.read Numeral.greatest32 t with
    | .ok n => return some n
    | .error fault => malformed s (.badRetries t fault)

/-- The command of a health check, after the word CMD. -/
def healthCommand (s : Statement) (t : Text) : Grammar Command :=
  if looksLikeExecForm t then .exec <$> ofExcept (readExecForm s.keyword t s.lines)
  else if t.isEmpty then malformed s .missingHealthCommand
  else .shell <$> expand .everywhere .shell t

/-- Reads HEALTHCHECK. -/
def healthcheck (s : Statement) : Grammar Step := do
  checkFlags s ["interval", "timeout", "start-period", "start-interval", "retries"] []
  let (first, rest) := Text.firstWord s.text
  if Text.sameName first "NONE".toList then
    if !rest.isEmpty || !s.flags.isEmpty then malformed s .noneWithArguments
    else return .healthcheck none
  else if !Text.sameName first "CMD".toList then malformed s .neitherNoneNorCmd
  else
    -- the command comes before the flags, so that its faults are reported first
    let command ← healthCommand s rest
    let interval ← duration s "interval"
    let timeout ← duration s "timeout"
    let startPeriod ← duration s "start-period"
    let startInterval ← duration s "start-interval"
    let retries ← retries s
    return .healthcheck (some ⟨command, interval, timeout, startPeriod, startInterval, retries⟩)

end Containerfile.Grammar
