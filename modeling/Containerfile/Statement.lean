import Containerfile.Failure
import Containerfile.Json.Reader
import Containerfile.Line.Logical

/-! # Statements

The text of an instruction taken apart: keyword, leading flags and arguments.  Arguments in brackets
are a JSON array of strings (the exec form) where the keyword allows that, unless they look like a
shell test. -/
namespace Containerfile

/-- A leading `--name` or `--name=value`. -/
structure Flag where
  name : Text
  value : Option Text
  deriving DecidableEq, Repr

/-- The text of a flag. -/
def Flag.render (f : Flag) : Text :=
  match f.value with
  | some value => "--".toList ++ f.name ++ '=' :: value
  | none => "--".toList ++ f.name

/-- The arguments of a statement. -/
inductive Arguments where
  | text (t : Text)
  | exec (items : List Text)
  deriving DecidableEq, Repr

/-- The arguments as text; the items of the exec form are joined by spaces. -/
def Arguments.joined : Arguments → Text
  | text t => t
  | exec items => Text.join [' '] items

/-- The form of the arguments of a statement. -/
inductive Form where
  /-- A shell command. -/
  | shell
  /-- A JSON array of strings. -/
  | exec
  /-- Text that only the instruction itself makes sense of. -/
  | plain
  deriving DecidableEq, Repr

/-- The name of a form. -/
def Form.name : Form → String
  | shell => "shell"
  | exec => "exec"
  | plain => "opaque"

/-- An instruction taken apart. -/
structure Statement where
  keyword : Keyword
  /-- Everything after the keyword. -/
  rawArgs : Text
  flags : List Flag
  args : Arguments
  lines : LineSpan
  heredocs : List Heredoc
  deriving DecidableEq, Repr

/-- Whether text is meant as a JSON array of strings: it is in brackets, and empty or begins with a
string. -/
def looksLikeExecForm (t : Text) : Bool :=
  match t.trim with
  | '[' :: inner =>
    inner.getLast? == some ']' &&
      (let first := (Text.trimStart inner).head?
       first == some '"' || first == some ']')
  | _ => false

example : looksLikeExecForm " [ \"a\" ] ".toList = true := by decide

/-- A shell test is in brackets too. -/
example : looksLikeExecForm "[ -f x ]".toList = false := by decide

/-- Reads a JSON array of strings for a keyword. -/
def readExecForm (keyword : Keyword) (t : Text) (lines : LineSpan) :
    Except Failure (List Text) :=
  (Json.readStrings t.trim).mapError fun fault => .malformedExecForm keyword fault lines

namespace Statement

/-- The text of the arguments. -/
def text (s : Statement) : Text := s.args.joined

/-- The form of the arguments. -/
def form (s : Statement) : Form :=
  match s.args with
  | .exec _ => .exec
  | .text _ => if s.keyword.isShellCommand then .shell else .plain

/-- The first flag of a name. -/
def flag? (s : Statement) (name : Text) : Option Flag := s.flags.find? fun f => f.name == name

/-- The flag that a word after two dashes is. -/
def flagOf (body : Text) : Flag :=
  match Text.splitOnce '=' body with
  | some (name, value) => ⟨name.lower, some value⟩
  | none => ⟨body.lower, none⟩

theorem length_firstWord_snd (t : Text) (h : ((Text.firstWord t).1).length ≠ 0) :
    (Text.firstWord t).2.length < t.length := by
  have hs : ∀ (p : Char → Bool) (u : Text), (u.dropWhile p).length ≤ u.length := fun p u =>
    (List.dropWhile_suffix _).sublist.length_le
  have ht : t.trim.length ≤ t.length := by
    have h1 := hs isBlank (Text.trimStart t).reverse
    have h2 := hs isBlank t
    simp only [Text.trim, Text.trimEnd, Text.dropEndWhile, List.length_reverse,
      Text.trimStart] at h1 h2 ⊢
    omega
  have hsplit : (t.trim.takeWhile (!isBlank ·)).length + (t.trim.dropWhile (!isBlank ·)).length
      = t.trim.length := by
    rw [← List.length_append, List.takeWhile_append_dropWhile]
  have h3 := hs isBlank (t.trim.dropWhile (!isBlank ·))
  simp only [Text.firstWord, Text.trimStart] at h ⊢
  omega

set_option linter.unusedVariables false in
/-- Takes leading flags off a trimmed text; two dashes alone end them. -/
def readFlags (t : Text) : List Flag × Text :=
  match h : (Text.firstWord t).1 with
  | '-' :: '-' :: c :: body =>
    let (flags, rest) := readFlags (Text.firstWord t).2
    (flagOf (c :: body) :: flags, rest)
  | _ => ([], t)
termination_by t.length
decreasing_by exact length_firstWord_snd t (by rw [h]; simp)

/-- Reads the text of an instruction that stands on some lines. -/
def read (t : Text) (lines : LineSpan) (heredocs : List Heredoc) : Except Failure Statement :=
  let (word, rest) := Text.firstWord t
  match Keyword.read? word with
  | none => .error (.unknownInstruction word lines)
  | some keyword => do
    let (flags, positional) := if keyword.acceptsFlags then readFlags rest else ([], rest)
    let args ←
      if keyword.acceptsExecForm && looksLikeExecForm positional then
        Arguments.exec <$> readExecForm keyword positional lines
      else pure (.text positional)
    return ⟨keyword, rest, flags, args, lines, heredocs⟩

/-- Reads a logical line. -/
def ofLine (l : LogicalLine) : Except Failure Statement := read l.text l.lines l.heredocs

end Statement

end Containerfile
