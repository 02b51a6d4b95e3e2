import Containerfile.Expansion.Template
import Containerfile.Scope.Basic

/-! # What an expansion says

A reference semantics of expansion, given without the expander.  A `Template` is a list of
characters that stand for themselves and of references; a reference has a name and perhaps a
modifier, whose word is a template again.  `Template.value` puts together what a template
says for given variables:

* a reference copies the value of its variable as it is, which is nothing if the name is unbound or
  its binding has no value;
* a modifier that demands its word puts the value of the word there instead (`Condition.Demands`).

`Template.missing` lists the names that nothing declares, from left to right.  The word of a
modifier counts only where it is demanded.

Main statement: `Scope.expand_eq_template`.  The template of a text is known before any variable is,
so nothing that a value holds — a dollar sign, a quote, an escape character — can be read again. -/
namespace Containerfile

/-- Whether a modifier demands its word for a variable.  An ARG without value counts as unset. -/
def Condition.Demands : Condition → Option Text → Prop
  | .ifEmpty, v => v = none ∨ v = some []
  | .ifUnset, v => v = none
  | .ifNonEmpty, v => v ≠ none ∧ v ≠ some []
  | .ifSet, v => v ≠ none

instance (c : Condition) (v : Option Text) : Decidable (c.Demands v) := by
  cases c <;> unfold Condition.Demands <;> infer_instance

/-- The expander takes the word of a modifier exactly where the modifier demands it. -/
theorem Condition.wantsWord_iff (c : Condition) (v : Option Text) :
    c.wantsWord v = true ↔ c.Demands v := by
  rcases v with _ | _ | ⟨a, v⟩ <;> cases c <;> simp [wantsWord, Demands]

/-- Where the word is not demanded, the value itself is what is left: a modifier that asks for a
value is refused only where there is nothing to copy. -/
theorem Condition.otherwise_eq {c : Condition} {v : Option Text} (h : ¬ c.Demands v) :
    c.otherwise v = v.getD [] := by
  rcases v with _ | _ | ⟨a, v⟩ <;> cases c <;> first | rfl | exact absurd (by simp [Demands]) h

namespace Template

/-- The value of a name for given variables, if it has one. -/
def valueOf (env : Text → Option Binding) (name : Text) : Option Text :=
  (env name).bind Binding.value

/-- The text that a template stands for. -/
def value (env : Text → Option Binding) : Template → Text
  | .done => []
  | .literal c rest => c :: value env rest
  | .plain name rest => (valueOf env name).getD [] ++ value env rest
  | .choice name condition word rest =>
    (if condition.Demands (valueOf env name) then value env word
      else (valueOf env name).getD []) ++ value env rest

/-- The names that a template refers to without a modifier and that are neither bound nor
predefined. -/
def missing (env : Text → Option Binding) : Template → List Text
  | .done => []
  | .literal _ rest => missing env rest
  | .plain name rest =>
    if env name = none ∧ isPredefined name = false then name :: missing env rest
    else missing env rest
  | .choice name condition word rest =>
    if condition.Demands (valueOf env name) then missing env word ++ missing env rest
    else missing env rest

/-- Filling in a template yields its text and its missing names. -/
theorem fill_eq (env : Text → Option Binding) (template : Template) :
    template.fill env = ⟨template.value env, template.missing env⟩ := by
  induction template with
  | done => rfl
  | literal c rest ih => simp [fill, value, missing, ih, Expansion.append, Expansion.literal]
  | plain name rest ih =>
    rw [fill, value, missing, ih]
    cases hb : env name with
    | none => by_cases hp : isPredefined name = true <;>
        simp [Expansion.append, Expansion.plain, valueOf, hb, hp]
    | some b => simp [Expansion.append, Expansion.plain, valueOf, hb]
  | choice name condition word rest ihw ih =>
    rw [fill, value, missing, ihw, ih]
    change Expansion.append (if condition.wantsWord (valueOf env name) then _ else _) _ = _
    by_cases hd : condition.Demands (valueOf env name)
    · rw [if_pos ((condition.wantsWord_iff _).mpr hd), if_pos hd, if_pos hd]
      rfl
    · have ho : condition.otherwise (valueOf env name) = (valueOf env name).getD [] :=
        Condition.otherwise_eq hd
      rw [if_neg fun h => hd ((condition.wantsWord_iff _).mp h), if_neg hd, if_neg hd, ← ho]
      rfl

end Template

/-- **One template for all variables.**  The template of a text depends on the escape character, the
mode and the text alone, and every scope expands the text to what its own variables make of that
template.  The expansion of FROM does so with the variables declared before the first stage. -/
theorem Scope.expand_eq_template (scope : Scope) (t : Text) :
    (∀ mode : ExpandMode,
      (scope.expand mode t).value =
          (Template.ofText scope.escape mode none t).value scope.lookup ∧
        (scope.expand mode t).undeclared =
          (Template.ofText scope.escape mode none t).missing scope.lookup) ∧
      (scope.expandGlobal t).value =
          (Template.ofText scope.escape .word none t).value scope.global.get? ∧
        (scope.expandGlobal t).undeclared =
          (Template.ofText scope.escape .word none t).missing scope.global.get? := by
  have hfill : ∀ (mode : ExpandMode) (env : Text → Option Binding),
      Expansion.ofText scope.escape mode env none t =
        ⟨(Template.ofText scope.escape mode none t).value env,
          (Template.ofText scope.escape mode none t).missing env⟩ := by
    intro mode env
    rw [Expansion.ofText_eq_fill, Template.fill_eq]
  refine ⟨?_, ?_, ?_⟩
  · intro mode
    exact ⟨congrArg Expansion.value (hfill mode _), congrArg Expansion.undeclared (hfill mode _)⟩
  · exact congrArg Expansion.value (hfill .word _)
  · exact congrArg Expansion.undeclared (hfill .word _)

/-- The words of modifiers are templates again.  What is in them counts only where it is demanded,
and the dollar sign and the quote of a value are copied. -/
theorem Scope.expand_eq_template_modifiers :
    let t : Text := "a$\x7bX:-b$\x7bY+c\x7d$Z\x7d$Z".toList
    let word : Template := .literal 'b' <| .choice "Y".toList .ifSet (.literal 'c' .done) <|
      .plain "Z".toList .done
    let template : Template := .literal 'a' <| .choice "X".toList .ifEmpty word <|
      .plain "Z".toList .done
    let bound (value : Text) : Scope :=
      { escape := '\\', global := [⟨"X".toList, some value, .arg, 0, .global⟩] }
    (∀ value, Template.ofText (bound value).escape .word none t = template) ∧
      (bound []).expand .word t = ⟨"ab".toList, ["Z".toList, "Z".toList]⟩ ∧
      (bound "$Z'".toList).expand .word t = ⟨"a$Z'".toList, ["Z".toList]⟩ := by
  intro t word template bound
  have htemplate : ∀ value, Template.ofText (bound value).escape .word none t = template := by
    intro value
    show Template.ofText '\\' .word none t = template
    decide +kernel
  have hexpand : ∀ value, (bound value).expand .word t =
      ⟨template.value (bound value).lookup, template.missing (bound value).lookup⟩ := by
    intro value
    obtain ⟨hvalue, hmissing⟩ := (Scope.expand_eq_template (bound value) t).1 .word
    rw [htemplate] at hvalue hmissing
    rw [← hvalue, ← hmissing]
  refine ⟨htemplate, ?_, ?_⟩
  · rw [hexpand]
    decide +kernel
  · rw [hexpand]
    decide +kernel

end Containerfile
