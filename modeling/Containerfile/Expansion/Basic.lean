import Containerfile.Expansion.Reference
import Containerfile.Scope.Binding
import Containerfile.Word.Quote

/-! # Expansion

Filling in the values of variables in a single pass from left to right.  A value that is filled in
is never looked at again: quotes, dollar signs and escape characters in it stand for themselves. -/
namespace Containerfile

/-- How text is expanded. -/
inductive ExpandMode where
  /-- A word of an instruction: an escape character before a dollar sign is dropped. -/
  | word
  /-- A shell command: escape characters are kept for the shell. -/
  | shell
  /-- An element of a JSON array: quotes stand for themselves. -/
  | element
  deriving DecidableEq, Repr

/-- What a protected character and the escape character before it leave. -/
def ExpandMode.kept (mode : ExpandMode) (escape c : Char) : Text :=
  if c = '$' ∧ mode ≠ .shell then [c] else [escape, c]

/-- The quote that the text after a character stands in.  Between single quotes only a single quote
is special, and between double quotes only a double quote is. -/
def ExpandMode.quoteAfter (mode : ExpandMode) (quote : Option Quote) (c : Char) : Option Quote :=
  if mode = .element then quote
  else
    match quote, Quote.ofChar? c with
    | none, q => q
    | some q, some r => if q = r then none else some q
    | some q, none => some q

/-- The build arguments that are there without a declaration. -/
def predefinedArgs : List String :=
  ["HTTP_PROXY", "http_proxy", "HTTPS_PROXY", "https_proxy", "FTP_PROXY", "ftp_proxy", "NO_PROXY",
    "no_proxy", "ALL_PROXY", "all_proxy", "TARGETPLATFORM", "TARGETOS", "TARGETARCH",
    "TARGETVARIANT", "BUILDPLATFORM", "BUILDOS", "BUILDARCH", "BUILDVARIANT"]

/-- Whether a name needs no declaration. -/
def isPredefined (name : Text) : Bool := predefinedArgs.any fun p => p.toList == name

namespace Condition

/-- Whether the word of a modifier is wanted for a value. -/
def wantsWord : Condition → Option Text → Bool
  | .ifEmpty, v => (v.getD []).isEmpty
  | .ifUnset, v => v.isNone
  | .ifNonEmpty, v => !(v.getD []).isEmpty
  | .ifSet, v => v.isSome

/-- What stands for a reference where the word is not wanted. -/
def otherwise : Condition → Option Text → Text
  | .ifEmpty, v | .ifUnset, v => v.getD []
  | .ifNonEmpty, _ | .ifSet, _ => []

end Condition

/-- Text that was filled in, with the names that were referred to without a declaration. -/
structure Expansion where
  value : Text := []
  undeclared : List Text := []
  deriving DecidableEq, Repr

namespace Expansion

/-- One expansion after the other. -/
def append (a b : Expansion) : Expansion := ⟨a.value ++ b.value, a.undeclared ++ b.undeclared⟩

/-- Text that stands for itself. -/
def literal (t : Text) : Expansion := ⟨t, []⟩

/-- A reference without modifier.  A name that is neither bound nor predefined is undeclared. -/
def plain (name : Text) (b : Option Binding) : Expansion :=
  ⟨(b.bind Binding.value).getD [], if b.isNone && !isPredefined name then [name] else []⟩

set_option linter.unusedVariables false in
/-- Expands text that stands in `quote`.  Nothing between single quotes is special.  Elsewhere an
escape character protects the next character, and a dollar sign starts a reference if one follows.
A binding without value counts as unset. -/
def ofText (escape : Char) (mode : ExpandMode) (lookup : Text → Option Binding)
    (quote : Option Quote) (t : Text) : Expansion :=
  match t with
  | [] => {}
  -- nothing follows that could be protected or referred to
  | [c] => literal [c]
  | c :: d :: t =>
    if quote = some .single then
      (literal [c]).append (ofText escape mode lookup (mode.quoteAfter quote c) (d :: t))
    else if c = escape then
      (literal (mode.kept c d)).append (ofText escape mode lookup quote t)
    else if c = '$' then
      match hr : Reference.read? (d :: t) with
      | none => (literal [c]).append (ofText escape mode lookup quote (d :: t))
      | some (⟨name, none⟩, rest) =>
        (plain name (lookup name)).append (ofText escape mode lookup quote rest)
      | some (⟨name, some (condition, word)⟩, rest) =>
        let v := (lookup name).bind Binding.value
        let chosen :=
          if condition.wantsWord v then ofText escape mode lookup none word
          else literal (condition.otherwise v)
        chosen.append (ofText escape mode lookup quote rest)
    else (literal [c]).append (ofText escape mode lookup (mode.quoteAfter quote c) (d :: t))
termination_by t.length
decreasing_by
  all_goals simp only [List.length_cons]
  all_goals try omega
  · have := Reference.length_of_read? hr
    simp only [List.length_cons] at this
    omega
  · have := Reference.length_word_of_read? hr rfl
    simp only [List.length_cons] at this
    omega
  · have := Reference.length_of_read? hr
    simp only [List.length_cons] at this
    omega

/-- The value of `A` is not expanded again, and only `D` is missed. -/
example : ofText '\\' .word (Layer.get? [⟨"A".toList, some "$B".toList, .arg, 0, .global⟩]) none
    "$\x7bA\x7d $\x7bC:-x\x7d \\$A $D".toList = ⟨"$B x $A ".toList, ["D".toList]⟩ := by
  decide +kernel

end Expansion

end Containerfile
