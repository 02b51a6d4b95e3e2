import Containerfile.Instruction.Basic
import Containerfile.Json.Basic

/-! # The text of instructions

The canonical text of each instruction: keyword in capitals, flags in a fixed order, one blank
between words, values escaped by backslashes, bodies of heredocs after the instruction. -/
namespace Containerfile

/-! ## Values -/

/-- Puts a backslash before each backslash, dollar sign and character that satisfies `special`. -/
def escapeValue (special : Char → Bool) (t : Text) : Text :=
  t.flatMap fun c => if c == '\\' || c == '$' || special c then ['\\', c] else [c]

/-- A value in double quotes. -/
def doubleQuoted (t : Text) : Text := '"' :: escapeValue (· == '"') t ++ ['"']

/-- Whether a value cannot stand without quotes. -/
def needsQuotes (t : Text) : Bool := t.any fun c => isBlank c || c == '"' || c == '\''

/-- A value in the given way of quoting if that can hold it, and in double quotes otherwise. -/
def quoteValue (q : Quoting) (t : Text) : Text :=
  match q with
  | .single => if t.contains '\'' then doubleQuoted t else '\'' :: t ++ ['\'']
  | .double => doubleQuoted t
  | .unquoted => if needsQuotes t then doubleQuoted t else escapeValue (fun _ => false) t

/-- The text of a pair. -/
def KeyValue.render (p : KeyValue) : Text :=
  quoteValue .unquoted p.key ++
    if p.hasEquals then '=' :: quoteValue p.quoting p.value
    else if p.quoting = .unquoted then
      ' ' :: escapeValue (fun c => c == '"' || c == '\'') p.value
    else ' ' :: quoteValue p.quoting p.value

/-- The text of a declaration. -/
def ArgDecl.render (d : ArgDecl) : Text :=
  match d.default with
  | none => d.name
  | some value => d.name ++ '=' :: quoteValue d.quoting value

/-- Puts a space after the comma wherever a text has a comma between two quotes. -/
def spaceCommas : Text → Text
  | '"' :: ',' :: '"' :: t => '"' :: ',' :: ' ' :: '"' :: spaceCommas t
  | c :: t => c :: spaceCommas t
  | [] => []

/-- Strings as a JSON array. -/
def execText (items : List Text) : Text := spaceCommas (Json.compact (.list Json.text items))

/-- The text of a command. -/
def Command.render : Command → Text
  | shell t => t
  | exec items => execText items

/-- The text of a port. -/
def Port.render (p : Port) : Text :=
  match p.protocol with
  | some protocol => p.port ++ '/' :: protocol.name.toList
  | none => p.port

/-- The text of a source of files. -/
def StageRef.render : StageRef → Text
  | stage _ name | deferred name => name
  | image name => name.render

example : KeyValue.render ⟨"K".toList, "it's $5".toList, .unquoted, true⟩ =
    "K=\"it's \\$5\"".toList := by
  decide

example : execText ["a".toList, "b\"c".toList] = "[\"a\", \"b\\\"c\"]".toList := by decide

/-! ## Parts of instructions -/

/-- Parts with a blank before each. -/
def spaced (parts : List Text) : Text := parts.flatMap (' ' :: ·)

/-- The text of a flag with a value. -/
def flagText (name : String) (value : Text) : Text := "--".toList ++ name.toList ++ '=' :: value

/-- The text of a flag that may be missing. -/
def optionalFlag (name : String) (value : Option Text) : List Text :=
  (value.map (flagText name)).toList

/-- The text of a flag without value. -/
def switchFlag (name : String) (on : Bool) : List Text :=
  if on then ["--".toList ++ name.toList] else []

/-- Paths one after the other, or as a JSON array. -/
def pathsText (execForm : Bool) (paths : List Text) : List Text :=
  if execForm then [execText paths] else paths.map (quoteValue .unquoted)

/-- The lines of a heredoc after the instruction. -/
def Heredoc.render (h : Heredoc) : Text :=
  if h.body.isEmpty then '\n' :: h.delimiter else '\n' :: h.body ++ '\n' :: h.delimiter

/-- The lines of heredocs after the instruction. -/
def heredocsText (hs : List Heredoc) : Text := hs.flatMap Heredoc.render

/-! ## Instructions -/

namespace Step

/-- The flags of a step in order. -/
def flagTexts : Step → List Text
  | run r =>
    r.mounts.map (fun m => flagText "mount" m.raw) ++
      optionalFlag "network" (r.network.map (·.name.toList)) ++
      optionalFlag "security" (r.security.map (·.name.toList))
  | copy files source parents =>
    optionalFlag "from" (source.map StageRef.render) ++
      optionalFlag "chown" files.chown ++ optionalFlag "chmod" files.chmod ++
      switchFlag "link" files.link ++ switchFlag "parents" parents ++
      files.exclude.map (flagText "exclude")
  | add files checksum keepGitDir =>
    optionalFlag "chown" files.chown ++ optionalFlag "chmod" files.chmod ++
      optionalFlag "checksum" checksum ++ switchFlag "keep-git-dir" keepGitDir ++
      switchFlag "link" files.link ++ files.exclude.map (flagText "exclude")
  | healthcheck (some h) =>
    optionalFlag "interval" (h.interval.map Duration.render) ++
      optionalFlag "timeout" (h.timeout.map Duration.render) ++
      optionalFlag "start-period" (h.startPeriod.map Duration.render) ++
      optionalFlag "start-interval" (h.startInterval.map Duration.render) ++
      optionalFlag "retries" (h.retries.map (Nat.toDigits 10))
  | _ => []

/-- The arguments of a step in order. -/
def argTexts : Step → List Text
  | run r => [r.command.render]
  | cmd c | entrypoint c => [c.render]
  | copy files .. | add files .. => pathsText files.execForm (files.sources ++ [files.destination])
  | env pairs | label pairs => pairs.map KeyValue.render
  | arg decls => decls.map ArgDecl.render
  | expose ports => ports.map Port.render
  | volume paths execForm => pathsText execForm paths
  | workdir path => [path]
  | user name none => [name]
  | user name (some group) => [name ++ ':' :: group]
  | shell argv => [execText argv]
  | stopsignal signal => [signal]
  | healthcheck none => ["NONE".toList]
  | healthcheck (some h) => ["CMD".toList, h.command.render]

/-- The text of a step. -/
def render (s : Step) : Text :=
  s.keyword.text ++ spaced (s.flagTexts ++ s.argTexts) ++ heredocsText s.heredocs

end Step

/-- The text of an instruction. -/
def Instruction.render : Instruction → Text
  | fromImage b =>
    Keyword.fromImage.text ++
      spaced (optionalFlag "platform" b.platform ++ [b.image.render] ++
        (b.stageName.map fun name => "AS ".toList ++ name).toList)
  | step s => s.render
  | onbuild s => Keyword.onbuild.text ++ ' ' :: s.render
  | maintainer name => Keyword.maintainer.text ++ ' ' :: name

/-- The text of an entry. -/
def Entry.render (e : Entry) : Text := e.instruction.render

end Containerfile
