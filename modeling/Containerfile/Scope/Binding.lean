import Containerfile.Text.Basic

/-! # Bindings

A binding gives a name a value.  A layer holds at most one binding a name, in the order in which the
names first came up; a new binding of a name takes the place of the old one. -/
namespace Containerfile

/-- The kind of instruction that made a binding. -/
inductive Origin where
  | arg
  | env
  deriving DecidableEq, Repr

/-- Where a binding can be seen. -/
inductive Extent where
  | global
  | stage (index : Nat)
  deriving DecidableEq, Repr

/-- A variable. -/
structure Binding where
  name : Text
  /-- An ARG without default has no value. -/
  value : Option Text
  origin : Origin
  /-- The index of the instruction that made the binding. -/
  declaredAt : Nat
  extent : Extent
  deriving DecidableEq, Repr

/-- The bindings of the file or of a stage. -/
abbrev Layer := List Binding

namespace Layer

/-- The binding of a name. -/
def get? (l : Layer) (name : Text) : Option Binding := l.find? fun b => b.name == name

/-- Binds a name; a binding that is there is replaced where it stands. -/
def bind (b : Binding) : Layer → Layer
  | [] => [b]
  | a :: l => if a.name = b.name then b :: l else a :: bind b l

theorem get?_bind_self (b : Binding) (l : Layer) : get? (bind b l) b.name = some b := by
  induction l with
  | nil => simp [bind, get?]
  | cons a l ih =>
    simp only [bind]
    split
    · simp [get?]
    · rename_i h
      simpa [get?, List.find?_cons, h] using ih

theorem get?_bind_of_ne {b : Binding} {name : Text} (h : b.name ≠ name) (l : Layer) :
    get? (bind b l) name = get? l name := by
  induction l with
  | nil => simp [bind, get?, h]
  | cons a l ih =>
    simp only [bind]
    split
    · rename_i ha
      simp [get?, ha, h]
    · simp only [get?, List.find?_cons] at ih ⊢
      split <;> simp_all

end Layer

end Containerfile
