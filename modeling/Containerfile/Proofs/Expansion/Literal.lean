import Containerfile.Expansion.Basic

/-! # Text that expands to itself

A reference starts with a dollar sign, and an escape character is dropped only before one.  So text
without dollar signs is filled in to itself, whatever the variables are, and so are, character by
character, the parts of a text that are neither. -/
namespace Containerfile.Expansion

variable {escape : Char} {mode : ExpandMode} {env : Text → Option Binding} {quote : Option Quote}

theorem append_literal (t u : Text) : (literal t).append (literal u) = literal (t ++ u) := rfl

theorem append_assoc (a b c : Expansion) : (a.append b).append c = a.append (b.append c) := by
  simp [append]

/-- A character that neither protects a next one nor is a dollar sign stands for
itself, also at the end. -/
theorem ofText_cons_of_not_protects {c : Char} {t : Text} (hp : ¬ (c = escape ∧ t ≠ []))
    (hd : c ≠ '$') :
    ofText escape mode env quote (c :: t) =
      (literal [c]).append (ofText escape mode env (mode.quoteAfter quote c) t) := by
  cases t with
  | nil => simp [ofText, append, literal]
  | cons d t =>
    rw [ofText, if_neg fun hc => hp ⟨hc, List.cons_ne_nil _ _⟩, if_neg hd]
    split <;> rfl

/-- A character that neither protects the next one nor refers to a variable stands for itself. -/
theorem ofText_cons {c : Char} (hc : c ≠ escape) (hd : c ≠ '$') (t : Text) :
    ofText escape mode env quote (c :: t) =
      (literal [c]).append (ofText escape mode env (mode.quoteAfter quote c) t) :=
  ofText_cons_of_not_protects (fun hp => hc hp.1) hd

/-- Between single quotes every character stands for itself. -/
theorem ofText_cons_single (c : Char) (t : Text) :
    ofText escape mode env (some .single) (c :: t) =
      (literal [c]).append (ofText escape mode env (mode.quoteAfter (some .single) c) t) := by
  cases t with
  | nil => simp [ofText, append, literal]
  | cons d t => rw [ofText, if_pos rfl]

/-- An escape character and the character that it protects. -/
theorem ofText_protected (hq : quote ≠ some .single) (c : Char) (t : Text) :
    ofText escape mode env quote (escape :: c :: t) =
      (literal (mode.kept escape c)).append (ofText escape mode env quote t) := by
  rw [ofText, if_neg hq, if_pos rfl]

/-- **Text without dollar signs is filled in to itself.** -/
theorem ofText_of_dollarless {t : Text} (h : '$' ∉ t) :
    ofText escape mode env quote t = literal t := by
  fun_induction ofText escape mode env quote t with
  | case1 => rfl
  | case2 => rfl
  | case3 c d t ih =>
    rw [ih fun hmem => h (List.mem_cons_of_mem _ hmem)]
    rfl
  | case4 quote d t hq ih =>
    rw [List.mem_cons, List.mem_cons, not_or, not_or] at h
    have hd : ¬ (d = '$' ∧ mode ≠ .shell) := fun hd => h.2.1 hd.1.symm
    rw [ih h.2.2, ExpandMode.kept, if_neg hd]
    rfl
  | case5 | case6 | case7 => exact absurd List.mem_cons_self h
  | case8 quote c d t hq he hc ih =>
    rw [ih fun hmem => h (List.mem_cons_of_mem _ hmem)]
    rfl

end Containerfile.Expansion
