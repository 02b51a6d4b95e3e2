import Containerfile.Text.Basic

/-! # Keywords

The eighteen instructions of a build file.  Their names are read in any case and written in
capitals. -/
namespace Containerfile

/-- The first word of an instruction. -/
inductive Keyword where
  | fromImage
  | run
  | cmd
  | label
  | maintainer
  | expose
  | env
  | add
  | copy
  | entrypoint
  | volume
  | user
  | workdir
  | arg
  | onbuild
  | stopsignal
  | healthcheck
  | shell
  deriving DecidableEq, Repr

namespace Keyword

/-- Every keyword. -/
def all : List Keyword :=
  [fromImage, run, cmd, label, maintainer, expose, env, add, copy, entrypoint, volume, user,
    workdir, arg, onbuild, stopsignal, healthcheck, shell]

/-- The name of a keyword. -/
def name : Keyword → String
  | fromImage => "FROM"
  | run => "RUN"
  | cmd => "CMD"
  | label => "LABEL"
  | maintainer => "MAINTAINER"
  | expose => "EXPOSE"
  | env => "ENV"
  | add => "ADD"
  | copy => "COPY"
  | entrypoint => "ENTRYPOINT"
  | volume => "VOLUME"
  | user => "USER"
  | workdir => "WORKDIR"
  | arg => "ARG"
  | onbuild => "ONBUILD"
  | stopsignal => "STOPSIGNAL"
  | healthcheck => "HEALTHCHECK"
  | shell => "SHELL"

/-- The name of a keyword as text. -/
def text (k : Keyword) : Text := k.name.toList

/-- The keyword that a word names, in any case. -/
def read? (word : Text) : Option Keyword := all.find? fun k => Text.sameName k.text word

/-- Whether flags may stand before the arguments. -/
def acceptsFlags : Keyword → Bool
  | copy | add | run | fromImage | healthcheck => true
  | _ => false

/-- Whether the arguments may be a JSON array of strings. -/
def acceptsExecForm : Keyword → Bool
  | run | cmd | entrypoint | shell | copy | add | volume => true
  | _ => false

/-- Whether arguments that are no JSON array are a shell command. -/
def isShellCommand : Keyword → Bool
  | run | cmd | entrypoint | healthcheck => true
  | _ => false

theorem read?_text (k : Keyword) : read? k.text = some k := by cases k <;> decide

end Keyword

end Containerfile
