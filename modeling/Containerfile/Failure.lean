import Containerfile.Duration.Reader
import Containerfile.ImageName
import Containerfile.Json.Fault
import Containerfile.Keyword
import Containerfile.LineSpan
import Containerfile.Text.Utf8

/-! # Failures

Everything that can be wrong with a build file, each as a cause with the data that tells where and
what.  A `Fault` is what is wrong with one instruction; a `Failure` is what a reading reports.
Codes, wording, category and recoverability are functions of the cause. -/
namespace Containerfile

/-- Why an instruction is malformed. -/
inductive Fault where
  | unknownFlag (name : Text)
  | duplicateFlag (name : Text)
  | flagWithoutValue (name : Text)
  | badSwitch (name value : Text)
  | missingImage
  | missingStageName
  | imageArity
  | emptyImage (word : Text)
  | badImage (fault : ImageFault)
  | badStageName (name : Text)
  | badMountType (type : Text)
  | missingMountTarget (type : Text)
  | badNetwork (mode : Text)
  | badSecurity (mode : Text)
  | missingCommand
  | missingArgument (keyword : Keyword)
  | tooFewPaths (keyword : Keyword) (count : Nat)
  | missingArguments (keyword : Keyword)
  | missingValue (keyword : Keyword) (key : Text)
  | missingEquals (word : Text)
  | blankName
  | badProtocol (protocol : Text)
  | badPort (port : Text)
  | missingPort
  | missingPath
  | emptyPath
  | missingDirectory
  | userArity
  | missingUser
  | emptyShell
  | shellNotExec
  | signalArity
  | noneWithArguments
  | neitherNoneNorCmd
  | missingHealthCommand
  | badRetries (value : Text) (fault : NumeralFault)
  | badDuration (flag value : Text) (fault : DurationFault)
  | missingTrigger
  | missingMaintainer
  | stageWithoutFrom
  deriving DecidableEq, Repr

/-- The wording of a fault. -/
def Fault.reason : Fault → String
  | .unknownFlag name => s!"unknown flag: --{str name}"
  | .duplicateFlag name => s!"duplicate flag: --{str name}"
  | .flagWithoutValue name => s!"--{str name} requires a value"
  | .badSwitch name value => s!"invalid value for --{str name}: {str value}"
  | .missingImage => "FROM requires an image argument"
  | .missingStageName => "AS requires a stage name"
  | .imageArity => "FROM requires either one or three arguments"
  | .emptyImage word => s!"base image '{str word}' expands to an empty name"
  | .badImage fault => fault.message
  | .badStageName name => s!"invalid stage name '{str name}'"
  | .badMountType type => s!"unsupported mount type: {str type}"
  | .missingMountTarget type => s!"{str type} mount requires a target"
  | .badNetwork mode => s!"unsupported network mode: {str mode}"
  | .badSecurity mode => s!"unsupported security mode: {str mode}"
  | .missingCommand => "RUN requires a command"
  | .missingArgument keyword => s!"{keyword.name} requires an argument"
  | .tooFewPaths keyword count =>
    s!"{keyword.name} requires at least two arguments, but only {count} provided"
  | .missingArguments keyword => s!"{keyword.name} requires at least one argument"
  | .missingValue keyword key => s!"{keyword.name} {str key} requires a value"
  | .missingEquals word => s!"can't find = in \"{str word}\"; must be of the form: name=value"
  | .blankName => "names can not be blank"
  | .badProtocol protocol => s!"invalid proto: {str protocol}"
  | .badPort port => s!"invalid containerPort: {str port}"
  | .missingPort => "EXPOSE requires at least one port"
  | .missingPath => "VOLUME requires at least one path"
  | .emptyPath => "VOLUME specified can not be an empty string"
  | .missingDirectory => "WORKDIR requires a path"
  | .userArity => "USER requires exactly one argument"
  | .missingUser => "USER requires a user name"
  | .emptyShell => "SHELL requires at least one argument"
  | .shellNotExec => "SHELL requires the arguments to be in JSON form"
  | .signalArity => "STOPSIGNAL requires exactly one argument"
  | .noneWithArguments => "HEALTHCHECK NONE takes no arguments or options"
  | .neitherNoneNorCmd => "HEALTHCHECK requires either NONE or CMD"
  | .missingHealthCommand => "HEALTHCHECK CMD requires a command"
  | .badRetries value fault => s!"invalid --retries value '{str value}': {fault.message}"
  | .badDuration flag value fault =>
    s!"invalid --{str flag} duration '{str value}': {fault.message}"
  | .missingTrigger => "ONBUILD requires an instruction"
  | .missingMaintainer => "MAINTAINER requires a name"
  | .stageWithoutFrom => "a stage must start with FROM"

/-- What part of a build file a failure is about. -/
inductive Category where
  | lex
  | token
  | grammar
  | structural
  | serialization
  deriving DecidableEq, Repr

/-- The name of a category. -/
def Category.name : Category → String
  | .lex => "Lex"
  | .token => "Token"
  | .grammar => "Grammar"
  | .structural => "Structural"
  | .serialization => "Serialization"

/-- What a reading reports. -/
inductive Failure where
  /-- The file ended before the terminator of a heredoc. -/
  | unterminatedHeredoc (delimiter : Text) (lines : LineSpan)
  /-- An escape directive that is repeated, or whose value is no escape character. -/
  | invalidEscapeDirective (value : Text) (lines : LineSpan)
  /-- Bytes that are not UTF-8. -/
  | invalidEncoding (fault : Utf8Fault)
  /-- A first word that is no keyword. -/
  | unknownInstruction (word : Text) (lines : LineSpan)
  /-- Arguments in brackets that are no JSON array of strings. -/
  | malformedExecForm (keyword : Keyword) (fault : Json.Fault) (lines : LineSpan)
  /-- A wrong number of arguments, a bad flag or a bad value. -/
  | malformed (keyword : Keyword) (fault : Fault) (lines : LineSpan)
  /-- A text that is no image name. -/
  | invalidImage (fault : ImageFault)
  /-- An instruction that may not be an ONBUILD trigger. -/
  | invalidTrigger (keyword : Keyword) (lines : LineSpan)
  /-- Anything but ARG before the first FROM. -/
  | beforeFirstFrom (keyword : Keyword) (lines : LineSpan)
  /-- A stage name that is taken. -/
  | duplicateAlias (name : Text) (lines : LineSpan)
  /-- A source or base that names no earlier stage. -/
  | unknownStage (reference : Text) (lines : LineSpan)
  /-- No instruction at all. -/
  | emptyDocument
  /-- Instructions, but no FROM. -/
  | missingFrom
  /-- Settings that cannot be read. -/
  | serialization (fault : Json.Fault)
  deriving DecidableEq, Repr

namespace Failure

/-- The code of a failure. -/
def code : Failure → String
  | unterminatedHeredoc .. => "UnterminatedHeredoc"
  | invalidEscapeDirective .. => "InvalidEscapeDirective"
  | invalidEncoding .. => "InvalidEncoding"
  | unknownInstruction .. => "UnknownInstruction"
  | malformedExecForm .. => "MalformedExecForm"
  | malformed .. => "MalformedInstruction"
  | invalidImage .. => "InvalidImageReference"
  | invalidTrigger .. => "InvalidOnbuildPayload"
  | beforeFirstFrom .. => "InstructionBeforeFirstFrom"
  | duplicateAlias .. => "DuplicateStageAlias"
  | unknownStage .. => "UnknownStageReference"
  | emptyDocument => "EmptyDockerfile"
  | missingFrom => "MissingFrom"
  | serialization .. => "SerializationError"

/-- The category of a failure. -/
def category : Failure → Category
  | unterminatedHeredoc .. | invalidEscapeDirective .. | invalidEncoding .. => .lex
  | unknownInstruction .. | malformedExecForm .. => .token
  | malformed .. | invalidImage .. | invalidTrigger .. => .grammar
  | beforeFirstFrom .. | duplicateAlias .. | unknownStage .. | emptyDocument | missingFrom =>
    .structural
  | serialization .. => .serialization

/-- Whether a tolerant reading can record the failure and go on with the next logical line. -/
def recoverable (f : Failure) : Bool :=
  match f.category with
  | .token | .grammar => true
  | .structural => f != emptyDocument && f != missingFrom
  | .lex | .serialization => false

/-- The lines that a failure is about, if it is about any. -/
def lines : Failure → Option LineSpan
  | unterminatedHeredoc _ lines | invalidEscapeDirective _ lines | unknownInstruction _ lines
  | malformedExecForm _ _ lines | malformed _ _ lines | invalidTrigger _ lines
  | beforeFirstFrom _ lines | duplicateAlias _ lines | unknownStage _ lines => some lines
  | invalidEncoding _ | invalidImage _ | emptyDocument | missingFrom | serialization _ => none

/-- The wording of a failure. -/
def message : Failure → String
  | unterminatedHeredoc delimiter lines =>
    s!"{lines.render}: unterminated heredoc '<<{str delimiter}'"
  | invalidEscapeDirective value lines =>
    s!"{lines.render}: invalid escape directive '{str value}'"
  | invalidEncoding fault => s!"Invalid encoding: {fault.message}"
  | unknownInstruction word lines => s!"{lines.render}: unknown instruction '{str word}'"
  | malformedExecForm keyword fault lines =>
    s!"{lines.render}: malformed exec-form array in {keyword.name}: {fault.message}"
  | malformed keyword fault lines =>
    s!"{lines.render}: malformed {keyword.name} instruction: {fault.reason}"
  | invalidImage fault => fault.message
  | invalidTrigger keyword lines =>
    s!"{lines.render}: {keyword.name} is not allowed as an ONBUILD trigger"
  | beforeFirstFrom keyword lines =>
    s!"{lines.render}: {keyword.name} appears before the first FROM"
  | duplicateAlias name lines => s!"{lines.render}: duplicate stage name '{str name}'"
  | unknownStage reference lines => s!"{lines.render}: unknown stage reference '{str reference}'"
  | emptyDocument => "Dockerfile contains no instructions"
  | missingFrom => "Dockerfile has no FROM instruction"
  | serialization fault => s!"Serialization error: {fault.message}"

end Failure

end Containerfile
