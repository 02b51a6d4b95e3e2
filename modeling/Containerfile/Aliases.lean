import Containerfile.Text.Numeral

/-! # Stage names

The names of the stages of a file in order; a stage need not have one.  Names are compared without
regard to ASCII case. -/
namespace Containerfile

/-- The names of stages; the last one is that of the current stage. -/
abbrev Aliases := List (Option Text)

namespace Aliases

/-- Whether a stage that may have a name has a given one. -/
def isCalled (name : Text) (given : Option Text) : Bool :=
  (given.map (Text.sameName name)).getD false

/-- The index of the first stage with a name. -/
def position (a : Aliases) (name : Text) : Option Nat := a.findIdx? (isCalled name)

/-- The index of the stage that a reference names, by index or else by name, if it comes before the
current one. -/
def resolveEarlier (a : Aliases) (reference : Text) : Option Nat := do
  let index ←
    match Numeral.read Numeral.greatest64 reference with
    | .ok index => some index
    | .error _ => a.position reference
  if index + 1 < a.length then return index else none

example : resolveEarlier [some "Base".toList, none, none] "base".toList = some 0 := by decide

/-- The current stage is not before itself. -/
example : resolveEarlier [some "Base".toList, none, none] "2".toList = none := by decide

end Aliases

end Containerfile
