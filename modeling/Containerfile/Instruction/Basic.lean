import Containerfile.Duration.Basic
import Containerfile.ImageName
import Containerfile.Keyword
import Containerfile.Line.Heredoc
import Containerfile.LineSpan
import Containerfile.Word.Unquote

/-! # Instructions

What each instruction says once its words are expanded and its values are read.  A `Step` is an
instruction that may also be the trigger of an ONBUILD; FROM, ONBUILD and MAINTAINER may not. -/
namespace Containerfile

/-- A pair of ENV or LABEL. -/
structure KeyValue where
  key : Text
  value : Text
  quoting : Quoting
  /-- Whether the pair was written with `=`; without, the value is the rest of the line. -/
  hasEquals : Bool
  deriving DecidableEq, Repr

/-- A declaration of ARG. -/
structure ArgDecl where
  name : Text
  default : Option Text
  quoting : Quoting
  deriving DecidableEq, Repr

/-- A command: text for a shell, or the arguments themselves. -/
inductive Command where
  | shell (t : Text)
  | exec (items : List Text)
  deriving DecidableEq, Repr

/-- A mount of RUN. -/
structure Mount where
  type : Text
  target : Option Text
  /-- The other options in order. -/
  options : List (Text × Option Text)
  /-- The mount as it was written. -/
  raw : Text
  deriving DecidableEq, Repr

/-- The network of RUN. -/
inductive NetworkMode where
  | default
  | none
  | host
  deriving DecidableEq, Repr

/-- The name of a network mode. -/
def NetworkMode.name : NetworkMode → String
  | .default => "default"
  | .none => "none"
  | .host => "host"

/-- The security mode of RUN. -/
inductive SecurityMode where
  | sandbox
  | insecure
  deriving DecidableEq, Repr

/-- The name of a security mode. -/
def SecurityMode.name : SecurityMode → String
  | .sandbox => "sandbox"
  | .insecure => "insecure"

/-- The protocol of a port. -/
inductive Protocol where
  | tcp
  | udp
  | sctp
  deriving DecidableEq, Repr

/-- The name of a protocol. -/
def Protocol.name : Protocol → String
  | .tcp => "tcp"
  | .udp => "udp"
  | .sctp => "sctp"

/-- A port or a range of ports. -/
structure Port where
  port : Text
  protocol : Option Protocol
  deriving DecidableEq, Repr

/-- What COPY takes files from. -/
inductive StageRef where
  /-- An earlier stage, with the name or index that was written. -/
  | stage (index : Nat) (name : Text)
  | image (name : ImageName)
  /-- Found out only when the trigger runs. -/
  | deferred (name : Text)
  deriving DecidableEq, Repr

/-- What COPY and ADD have in common. -/
structure Transfer where
  sources : List Text
  destination : Text
  chown : Option Text
  chmod : Option Text
  link : Bool
  exclude : List Text
  heredocs : List Heredoc
  /-- Whether the paths were written as a JSON array. -/
  execForm : Bool
  deriving DecidableEq, Repr

/-- A RUN instruction. -/
structure Run where
  command : Command
  mounts : List Mount
  network : Option NetworkMode
  security : Option SecurityMode
  heredocs : List Heredoc
  deriving DecidableEq, Repr

/-- How and how often the health of a container is checked. -/
structure HealthCheck where
  command : Command
  interval : Option Duration
  timeout : Option Duration
  startPeriod : Option Duration
  startInterval : Option Duration
  retries : Option Nat
  deriving DecidableEq, Repr

/-- A FROM instruction. -/
structure BaseImage where
  image : ImageName
  platform : Option Text
  /-- The name of the stage that it opens. -/
  stageName : Option Text
  deriving DecidableEq, Repr

/-- An instruction of a stage that may be a trigger. -/
inductive Step where
  | run (r : Run)
  | cmd (c : Command)
  | entrypoint (c : Command)
  | copy (files : Transfer) (source : Option StageRef) (parents : Bool)
  | add (files : Transfer) (checksum : Option Text) (keepGitDir : Bool)
  | env (vars : List KeyValue)
  | label (labels : List KeyValue)
  | arg (args : List ArgDecl)
  | expose (ports : List Port)
  | volume (paths : List Text) (execForm : Bool)
  | workdir (path : Text)
  | user (user : Text) (group : Option Text)
  | shell (argv : List Text)
  | stopsignal (signal : Text)
  /-- `none` turns an inherited check off. -/
  | healthcheck (check : Option HealthCheck)
  deriving DecidableEq, Repr

/-- An instruction. -/
inductive Instruction where
  | fromImage (base : BaseImage)
  | step (s : Step)
  | onbuild (trigger : Step)
  | maintainer (name : Text)
  deriving DecidableEq, Repr

/-- An instruction with its lines. -/
structure Entry where
  instruction : Instruction
  lines : LineSpan
  deriving DecidableEq, Repr

namespace Step

/-- The keyword of a step. -/
def keyword : Step → Keyword
  | run _ => .run
  | cmd _ => .cmd
  | entrypoint _ => .entrypoint
  | copy .. => .copy
  | add .. => .add
  | env _ => .env
  | label _ => .label
  | arg _ => .arg
  | expose _ => .expose
  | volume .. => .volume
  | workdir _ => .workdir
  | user .. => .user
  | shell _ => .shell
  | stopsignal _ => .stopsignal
  | healthcheck _ => .healthcheck

/-- The heredocs of a step. -/
def heredocs : Step → List Heredoc
  | run r => r.heredocs
  | copy files .. | add files .. => files.heredocs
  | _ => []

end Step

namespace Instruction

/-- The keyword of an instruction. -/
def keyword : Instruction → Keyword
  | fromImage _ => .fromImage
  | step s => s.keyword
  | onbuild _ => .onbuild
  | maintainer _ => .maintainer

/-- The heredocs of an instruction or of its trigger. -/
def heredocs : Instruction → List Heredoc
  | step s | onbuild s => s.heredocs
  | fromImage _ | maintainer _ => []

end Instruction

/-- The keyword of an entry. -/
def Entry.keyword (e : Entry) : Keyword := e.instruction.keyword

/-- A trigger is none of the three instructions that may not be one. -/
theorem Step.keyword_ne (s : Step) :
    s.keyword ≠ .fromImage ∧ s.keyword ≠ .onbuild ∧ s.keyword ≠ .maintainer := by
  cases s <;> simp [Step.keyword]

end Containerfile
