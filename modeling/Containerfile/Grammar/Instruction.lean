import Containerfile.Grammar.Command
import Containerfile.Grammar.Declaration
import Containerfile.Grammar.Files

/-! # The grammar of instructions

Chooses the grammar by the keyword.  A trigger is read without variables and without resolving
stages, since it runs in another build. -/
namespace Containerfile.Grammar

/-- Reads a step; the three instructions that are none are refused as triggers. -/
def step (s : Statement) : Grammar Step :=
  match s.keyword with
  | .run => run s
  | .cmd => .cmd <$> command s
  | .entrypoint => .entrypoint <$> command s
  | .copy => copy s
  | .add => add s
  | .env => .env <$> pairs s
  | .label => .label <$> pairs s
  | .arg => arg s
  | .expose => expose s
  | .volume => volume s
  | .workdir => workdir s
  | .user => user s
  | .shell => shell s
  | .stopsignal => stopsignal s
  | .healthcheck => healthcheck s
  | .fromImage | .onbuild | .maintainer => fail (.invalidTrigger s.keyword s.lines)

/-- A grammar in the context of a trigger. -/
def asTrigger (g : Grammar α) : Grammar α := fun cx =>
  g { cx with scope := none, deferred := true }

/-- Reads ONBUILD; yields its trigger. -/
def onbuild (s : Statement) : Grammar Step := do
  if s.text.trim.isEmpty then malformed s .missingTrigger
  else
    let payload ← ofExcept (Statement.read s.text s.lines s.heredocs)
    asTrigger (step payload)

/-- Reads an instruction. -/
def instruction (s : Statement) : Grammar Instruction :=
  match s.keyword with
  | .fromImage => .fromImage <$> fromImage s
  | .onbuild => .onbuild <$> onbuild s
  | .maintainer => .maintainer <$> maintainer s
  | _ => .step <$> step s

end Containerfile.Grammar
