import Containerfile.Expansion.Basic

/-! # Templates

What a text says about variables, whatever their values are: characters that stand for themselves,
and references.  A template is read from a text once and can then be filled in for any variables.
Main statement: `Expansion.ofText_eq_fill`, expanding a text is filling in its template. -/
namespace Containerfile

/-- Text with references in it. -/
inductive Template where
  | done
  | literal (c : Char) (rest : Template)
  /-- A reference without modifier. -/
  | plain (name : Text) (rest : Template)
  /-- A reference with a modifier. -/
  | choice (name : Text) (condition : Condition) (word rest : Template)
  deriving DecidableEq, Repr

namespace Template

/-- Characters that stand for themselves before a template. -/
def literals (t : Text) (rest : Template) : Template := t.foldr literal rest

set_option linter.unusedVariables false in
/-- Reads text that stands in `quote`. -/
def ofText (escape : Char) (mode : ExpandMode) (quote : Option Quote) (t : Text) : Template :=
  match t with
  | [] => .done
  | [c] => .literal c .done
  | c :: d :: t =>
    if quote = some .single then .literal c (ofText escape mode (mode.quoteAfter quote c) (d :: t))
    else if c = escape then literals (mode.kept c d) (ofText escape mode quote t)
    else if c = '$' then
      match hr : Reference.read? (d :: t) with
      | none => .literal c (ofText escape mode quote (d :: t))
      | some (⟨name, none⟩, rest) => .plain name (ofText escape mode quote rest)
      | some (⟨name, some (condition, word)⟩, rest) =>
        .choice name condition (ofText escape mode none word) (ofText escape mode quote rest)
    else .literal c (ofText escape mode (mode.quoteAfter quote c) (d :: t))
termination_by t.length
decreasing_by
  all_goals simp only [List.length_cons]
  all_goals try omega
  · have := Reference.length_of_read? hr
    simp only [List.length_cons] at this
    omega
  · have := Reference.length_word_of_read? hr rfl
    simp only [List.length_cons] at this
    omega
  · have := Reference.length_of_read? hr
    simp only [List.length_cons] at this
    omega

/-- Fills a template in for the variables that can be seen. -/
def fill (lookup : Text → Option Binding) : Template → Expansion
  | .done => {}
  | .literal c rest => .append (.literal [c]) (fill lookup rest)
  | .plain name rest => .append (.plain name (lookup name)) (fill lookup rest)
  | .choice name condition word rest =>
    let v := (lookup name).bind Binding.value
    let chosen :=
      if condition.wantsWord v then fill lookup word else .literal (condition.otherwise v)
    .append chosen (fill lookup rest)

theorem fill_literals (lookup : Text → Option Binding) (t : Text) (rest : Template) :
    (literals t rest).fill lookup = .append (.literal t) (rest.fill lookup) := by
  induction t with
  | nil => rfl
  | cons c t ih =>
    change Expansion.append (.literal [c]) ((literals t rest).fill lookup) = _
    rw [ih]
    rfl

end Template

/-- Expanding a text is filling in its template. -/
theorem Expansion.ofText_eq_fill (escape : Char) (mode : ExpandMode)
    (lookup : Text → Option Binding) (quote : Option Quote) (t : Text) :
    Expansion.ofText escape mode lookup quote t =
      (Template.ofText escape mode quote t).fill lookup := by
  fun_induction Expansion.ofText escape mode lookup quote t with
  | case1 => simp [Template.ofText, Template.fill]
  | case2 quote c => simp [Template.ofText, Template.fill, Expansion.append, Expansion.literal]
  | case3 c d t ih => simp [Template.ofText, Template.fill, ih]
  | case4 quote d t hq ih => simp [Template.ofText, Template.fill_literals, hq, ih]
  | case5 quote d t hq hr he ih =>
    rw [Template.ofText]
    simp only [hq, he, if_false, if_true]
    split <;> simp_all [Template.fill]
  | case6 quote d t hq name rest hr he ih =>
    rw [Template.ofText]
    simp only [hq, he, if_false, if_true]
    split <;> simp_all [Template.fill]
  | case7 quote d t hq name condition word rest hr v chosen he ihw ih =>
    rw [Template.ofText]
    simp only [hq, he, if_false, if_true]
    split <;> simp_all [Template.fill, chosen, v]
  | case8 quote c d t hq he hc ih => simp [Template.ofText, Template.fill, hq, he, hc, ih]

end Containerfile
