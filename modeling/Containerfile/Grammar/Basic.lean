import Containerfile.Aliases
import Containerfile.Scope.Basic
import Containerfile.Statement
import Containerfile.Word.Split
import Containerfile.Word.Unquote

/-! # Grammars

A grammar reads a statement into what it says.  It may look at its context, where it expands
words; it may fail; and it leaves behind the names that were referred to without a declaration,
also when it fails after that.  Words are split before they are expanded, so that a value never
makes two words of one. -/
namespace Containerfile

/-- What grammars look at. -/
structure Context where
  escape : Char
  /-- The variables; without a scope nothing is expanded. -/
  scope : Option Scope
  /-- The names of the stages so far. -/
  aliases : Aliases
  /-- Whether the instruction is a trigger, to be resolved when it runs. -/
  deferred : Bool
  deriving DecidableEq, Repr

/-- What comes of a grammar: a result, and the undeclared names as they were referred to. -/
structure Outcome (α : Type) where
  result : Except Failure α
  references : List Text

/-- The undeclared names, each once, in the order of first reference. -/
def Outcome.undeclared (o : Outcome α) : List Text := o.references.eraseDups

/-- A reader of statements in a context. -/
def Grammar (α : Type) : Type := Context → Outcome α

namespace Grammar

/-- Goes on with a result, unless there is a failure. -/
def andThen (x : Grammar α) (f : α → Grammar β) : Grammar β := fun cx =>
  match (x cx).result with
  | .error e => ⟨.error e, (x cx).references⟩
  | .ok a => ⟨(f a cx).result, (x cx).references ++ (f a cx).references⟩

instance : Monad Grammar where
  pure a := fun _ => ⟨.ok a, []⟩
  bind := andThen

@[simp] theorem pure_run (a : α) (cx : Context) : (pure a : Grammar α) cx = ⟨.ok a, []⟩ := rfl

theorem bind_run (x : Grammar α) (f : α → Grammar β) (cx : Context) :
    (x >>= f) cx = andThen x f cx := rfl

theorem bind_of_ok {x : Grammar α} {f : α → Grammar β} {cx : Context} {a : α} {names : List Text}
    (h : x cx = ⟨.ok a, names⟩) :
    (x >>= f) cx = ⟨(f a cx).result, names ++ (f a cx).references⟩ := by
  simp [bind_run, andThen, h]

theorem bind_of_error {x : Grammar α} {f : α → Grammar β} {cx : Context} {e : Failure}
    {names : List Text} (h : x cx = ⟨.error e, names⟩) : (x >>= f) cx = ⟨.error e, names⟩ := by
  simp [bind_run, andThen, h]

theorem andThen_pure (x : Grammar α) : andThen x pure = x := by
  funext cx
  cases h : x cx with
  | mk result names => cases result <;> simp [andThen, h]

theorem pure_andThen (a : α) (f : α → Grammar β) : andThen (pure a) f = f a := by
  funext cx
  simp [andThen]

theorem andThen_assoc (x : Grammar α) (f : α → Grammar β) (g : β → Grammar γ) :
    andThen (andThen x f) g = andThen x fun a => andThen (f a) g := by
  funext cx
  cases h : x cx with
  | mk result names =>
    cases result with
    | error e => simp [andThen, h]
    | ok a =>
      cases hf : f a cx with
      | mk result' names' => cases result' <;> simp [andThen, h, hf]

instance : LawfulMonad Grammar :=
  LawfulMonad.mk' Grammar (fun x => andThen_pure x) (fun a f => pure_andThen a f)
    (fun x f g => andThen_assoc x f g)

/-- Fails. -/
def fail (e : Failure) : Grammar α := fun _ => ⟨.error e, []⟩

/-- Goes on with what was read elsewhere. -/
def ofExcept (x : Except Failure α) : Grammar α := fun _ => ⟨x, []⟩

/-- The context. -/
def context : Grammar Context := fun cx => ⟨.ok cx, []⟩

/-- Where variables are looked up: in the whole scope, or only among those declared before the first
stage. -/
inductive Visibility where
  | everywhere
  | globalOnly
  deriving DecidableEq, Repr

/-- Fills in the variables of a scope. -/
def expansion (scope : Scope) (v : Visibility) (mode : ExpandMode) (t : Text) : Expansion :=
  match v with
  | .everywhere => scope.expand mode t
  | .globalOnly => scope.expandGlobal t

/-- Fills in the variables of the context. -/
def expand (v : Visibility) (mode : ExpandMode) (t : Text) : Grammar Text := fun cx =>
  match cx.scope with
  | none => ⟨.ok t, []⟩
  | some scope =>
    let e := expansion scope v mode t
    ⟨.ok e.value, e.undeclared⟩

/-- The value of a word, filled in and then unquoted, with its way of quoting. -/
def word (v : Visibility) (raw : Text) : Grammar (Text × Quoting) := do
  let filled ← expand v .word raw
  return Word.unquote (← context).escape filled

/-- The value of a word. -/
def wordValue (v : Visibility) (raw : Text) : Grammar Text := Prod.fst <$> word v raw

/-- The words of a text as they stand. -/
def rawWords (t : Text) : Grammar (List Text) := do
  return Word.split (← context).escape t

/-- The values of the words of a text. -/
def words (t : Text) : Grammar (List Text) := do
  (← rawWords t).mapM' (wordValue .everywhere)

/-! ## Faults and flags of a statement -/

/-- Fails because a statement is malformed. -/
def malformed (s : Statement) (fault : Fault) : Grammar α :=
  fail (.malformed s.keyword fault s.lines)

/-- The first flag that may not stand where it stands: one that is not known, or one that stands
twice and may not. -/
def badFlag (allowed repeatable : List String) (before : List Text) : List Flag → Option Fault
  | [] => none
  | f :: flags =>
    if !allowed.any (·.toList == f.name) then some (.unknownFlag f.name)
    else if before.contains f.name && !repeatable.any (·.toList == f.name) then
      some (.duplicateFlag f.name)
    else badFlag allowed repeatable (f.name :: before) flags

/-- Checks the flags of a statement. -/
def checkFlags (s : Statement) (allowed : List String) (repeatable : List String) :
    Grammar Unit :=
  match badFlag allowed repeatable [] s.flags with
  | some fault => malformed s fault
  | none => pure ()

/-- The values of all flags of a name; empty ones leave the flag unset. -/
def flagValues (s : Statement) (name : String) (v : Visibility) : Grammar (List Text) := do
  let values ← (s.flags.filter (·.name == name.toList)).mapM' fun f =>
    match f.value with
    | none => malformed s (.flagWithoutValue name.toList)
    | some raw => wordValue v raw
  return values.filter (!·.isEmpty)

/-- The value of a flag. -/
def flagValue (s : Statement) (name : String) (v : Visibility) : Grammar (Option Text) := do
  return (← flagValues s name v).getLast?

/-- Whether a flag is on: it stands alone, or with `true` in any case. -/
def flagSwitch (s : Statement) (name : String) : Grammar Bool :=
  match s.flag? name.toList with
  | none => pure false
  | some f =>
    match f.value with
    | none => pure true
    | some value =>
      if Text.sameName value "true".toList then pure true
      else if Text.sameName value "false".toList then pure false
      else malformed s (.badSwitch name.toList value)

end Grammar

end Containerfile
