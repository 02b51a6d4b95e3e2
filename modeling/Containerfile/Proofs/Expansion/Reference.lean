import Containerfile.Expansion.Basic
import Containerfile.Proofs.Word.Split
import Mathlib.Data.List.TakeWhile

/-! # The plain ways to refer to a variable

A name can be referred to by `$NAME` and by `${NAME}`, and either may stand between double quotes.
Such a word expands to the value of the variable and nothing else, for an escape character that is
neither a dollar sign nor a double quote. -/
namespace Containerfile

namespace Reference

/-- Whether a text can be referred to: a letter or an underscore, then letters, digits and
underscores. -/
def isName : Text → Bool
  | [] => false
  | c :: t => isNameStart c && t.all isNameChar

/-- The text `$NAME`. -/
def bare (name : Text) : Text := '$' :: name

/-- The text `${NAME}`. -/
def braced (name : Text) : Text := '$' :: '\x7b' :: name ++ ['\x7d']

variable {name rest : Text}

theorem isNameChar_of_isNameStart {c : Char} (h : isNameStart c = true) : isNameChar c = true := by
  simp only [isNameStart, isNameChar, Char.isAlphanum, Bool.or_eq_true] at h ⊢
  exact h.imp_left Or.inl

theorem isNameChar_of_isName (h : isName name = true) : ∀ c ∈ name, isNameChar c = true := by
  cases name with
  | nil => cases h
  | cons a t =>
    rw [isName, Bool.and_eq_true, List.all_eq_true] at h
    intro c hc
    rcases List.mem_cons.mp hc with rfl | hc
    · exact isNameChar_of_isNameStart h.1
    · exact h.2 c hc

theorem ne_nil_of_isName (h : isName name = true) : name ≠ [] := by
  rintro rfl
  cases h

/-- No character of a name means anything else than itself. -/
theorem ne_of_isNameChar {c d : Char} (hc : isNameChar c = true) (hd : isNameChar d = false) :
    c ≠ d := by
  rintro rfl
  rw [hc] at hd
  cases hd

/-- The characters of a name are visible characters of ASCII. -/
theorem visible_of_isNameChar {c : Char} (h : isNameChar c = true) :
    48 ≤ c.toNat ∧ c.toNat ≤ 122 := by
  have hcases : (c.isAlpha = true ∨ c.isDigit = true) ∨ c = '_' := by
    simpa only [isNameChar, Char.isAlphanum, Bool.or_eq_true, beq_iff_eq] using h
  rcases hcases with (hc | hc) | rfl
  · have hletter : (decide ('A'.val ≤ c.val ∧ c.val ≤ 'Z'.val) ||
        (decide ('a'.val ≤ c.val) && decide (c.val ≤ 'z'.val))) = true := hc
    simp [UInt32.le_iff_toNat_le] at hletter
    omega
  · have hdigit : (decide ('0'.val ≤ c.val) && decide (c.val ≤ '9'.val)) = true := hc
    simp [UInt32.le_iff_toNat_le] at hdigit
    omega
  · exact ⟨by decide, by decide⟩

theorem isNameChar_of_isDigit {c : Char} (h : c.isDigit = true) : isNameChar c = true := by
  show (c.isAlpha || c.isDigit || c == '_') = true
  rw [h, Bool.or_true]
  rfl

theorem isBlank_of_isNameChar {c : Char} (h : isNameChar c = true) : isBlank c = false := by
  by_contra hb
  have hout := Text.not_visible_of_isBlank (eq_true_of_ne_false hb)
  have hin := visible_of_isNameChar h
  omega

/-- No character of a name is special in a word. -/
theorem bareChar_of_isNameChar {escape c : Char} (he : isNameChar escape = false)
    (hc : isNameChar c = true) : Word.BareChar escape c := by
  refine ⟨isBlank_of_isNameChar hc, ?_, ne_of_isNameChar hc he⟩
  have hs : c ≠ '\'' := ne_of_isNameChar hc (by decide)
  have hd : c ≠ '"' := ne_of_isNameChar hc (by decide)
  simp [Quote.ofChar?, hs, hd]

/-- A name is read up to the first character that cannot belong to it. -/
theorem read?_name (hn : isName name = true) (hr : ∀ c ∈ rest.head?, isNameChar c = false) :
    read? (name ++ rest) = some (⟨name, none⟩, rest) := by
  obtain ⟨a, t, rfl⟩ := List.exists_cons_of_ne_nil (ne_nil_of_isName hn)
  have hall := isNameChar_of_isName hn
  rw [isName, Bool.and_eq_true] at hn
  have hbrace : a ≠ '\x7b' := ne_of_isNameChar (hall a List.mem_cons_self) (by decide)
  have ht : ∀ c ∈ t, isNameChar c = true := fun c hc => hall c (List.mem_cons_of_mem _ hc)
  have hstop : rest.takeWhile isNameChar = [] ∧ rest.dropWhile isNameChar = rest := by
    cases rest with
    | nil => exact ⟨rfl, rfl⟩
    | cons c rest =>
      have hc : ¬ isNameChar c = true := by simp [hr c rfl]
      exact ⟨List.takeWhile_cons_of_neg hc, List.dropWhile_cons_of_neg hc⟩
  rw [List.cons_append, read?, if_neg hbrace, if_pos hn.1, List.takeWhile_append_of_pos ht,
    List.dropWhile_append_of_pos ht, hstop.1, hstop.2, List.append_nil]

/-- Without braces in it, a text is what stands between the braces around it. -/
theorem upToBrace_append {inner : Text} (h : ∀ c ∈ inner, c ≠ '\x7b' ∧ c ≠ '\x7d') :
    upToBrace 0 (inner ++ '\x7d' :: rest) = some (inner, rest) := by
  induction inner with
  | nil => simp [upToBrace]
  | cons c inner ih =>
    have hc := h c List.mem_cons_self
    rw [List.cons_append, upToBrace, if_neg hc.2, if_neg hc.1,
      ih fun d hd => h d (List.mem_cons_of_mem _ hd)]
    rfl

theorem read?_braced (hn : isName name = true) :
    read? ('\x7b' :: (name ++ '\x7d' :: rest)) = some (⟨name, none⟩, rest) := by
  have hall := isNameChar_of_isName hn
  have hbraces : ∀ c ∈ name, c ≠ '\x7b' ∧ c ≠ '\x7d' := fun c hc =>
    ⟨ne_of_isNameChar (hall c hc) (by decide), ne_of_isNameChar (hall c hc) (by decide)⟩
  have hinner : readInner name = some ⟨name, none⟩ := by
    obtain ⟨a, t, rfl⟩ := List.exists_cons_of_ne_nil (ne_nil_of_isName hn)
    rw [isName, Bool.and_eq_true, List.all_eq_true] at hn
    rw [readInner, if_pos hn.1, List.takeWhile_eq_self_iff.mpr hn.2,
      List.dropWhile_eq_nil_iff.mpr hn.2]
    rfl
  simp [read?, upToBrace_append hbraces, hinner]

end Reference

namespace Expansion

variable {escape : Char} {env : Text → Option Binding} {name : Text}

/-- A dollar sign before a reference without modifier is filled in. -/
theorem ofText_reference {mode : ExpandMode} {quote : Option Quote} {t rest : Text}
    (he : escape ≠ '$') (hq : quote ≠ some .single)
    (hr : Reference.read? t = some (⟨name, none⟩, rest)) :
    ofText escape mode env quote ('$' :: t) =
      (plain name (env name)).append (ofText escape mode env quote rest) := by
  cases t with
  | nil => cases hr
  | cons c t =>
    rw [ofText, if_neg hq, if_neg (Ne.symm he), if_pos rfl]
    split <;> simp_all

/-- A dollar sign before a reference with a modifier is filled in by the word of the modifier, if
that is wanted, or else by the value or by nothing. -/
theorem ofText_modified {mode : ExpandMode} {quote : Option Quote} {t word rest : Text}
    {condition : Condition} (he : escape ≠ '$') (hq : quote ≠ some .single)
    (hr : Reference.read? t = some (⟨name, some (condition, word)⟩, rest)) :
    ofText escape mode env quote ('$' :: t) =
      append
        (if condition.wantsWord ((env name).bind Binding.value) then
          ofText escape mode env none word
          else literal (condition.otherwise ((env name).bind Binding.value)))
        (ofText escape mode env quote rest) := by
  cases t with
  | nil => cases hr
  | cons c t =>
    rw [ofText, if_neg hq, if_neg (Ne.symm he), if_pos rfl]
    split <;> simp_all

/-- A dollar sign that protects nothing and that no reference follows stands for
itself, also at the end. -/
theorem ofText_dollar_of_not_protects {mode : ExpandMode} {quote : Option Quote} {t : Text}
    (hp : ¬ ('$' = escape ∧ t ≠ [])) (hq : quote ≠ some .single) (hr : Reference.read? t = none) :
    ofText escape mode env quote ('$' :: t) =
      (literal ['$']).append (ofText escape mode env quote t) := by
  cases t with
  | nil => simp [ofText, append, literal]
  | cons c t =>
    rw [ofText, if_neg hq, if_neg fun he => hp ⟨he, List.cons_ne_nil _ _⟩, if_pos rfl]
    split <;> simp_all

/-- A dollar sign before anything else stands for itself. -/
theorem ofText_dollar {mode : ExpandMode} {quote : Option Quote} {t : Text} (he : escape ≠ '$')
    (hq : quote ≠ some .single) (hr : Reference.read? t = none) :
    ofText escape mode env quote ('$' :: t) =
      (literal ['$']).append (ofText escape mode env quote t) :=
  ofText_dollar_of_not_protects (fun hp => he hp.1.symm) hq hr

theorem append_nil (e : Expansion) : e.append {} = e := by simp [append]

theorem ofText_bare (he : escape ≠ '$') (hn : Reference.isName name = true) (mode : ExpandMode) :
    ofText escape mode env none (Reference.bare name) = plain name (env name) := by
  have hr : Reference.read? (name ++ []) = some (⟨name, none⟩, []) :=
    Reference.read?_name hn (by simp)
  rw [List.append_nil] at hr
  rw [Reference.bare, ofText_reference he (by simp) hr, ofText, append_nil]

theorem ofText_braced (he : escape ≠ '$') (hn : Reference.isName name = true) (mode : ExpandMode) :
    ofText escape mode env none (Reference.braced name) = plain name (env name) := by
  have hr : Reference.read? ('\x7b' :: (name ++ ['\x7d'])) = some (⟨name, none⟩, []) :=
    Reference.read?_braced hn
  rw [Reference.braced, List.cons_append, List.cons_append, ofText_reference he (by simp) hr,
    ofText, append_nil]

theorem ofText_quoted (he : escape ≠ '$') (hq : escape ≠ '"') (hn : Reference.isName name = true) :
    ofText escape .word env none ('"' :: Reference.bare name ++ ['"']) =
      (literal ['"']).append ((plain name (env name)).append (literal ['"'])) := by
  have hr : Reference.read? (name ++ ['"']) = some (⟨name, none⟩, ['"']) :=
    Reference.read?_name hn (by simp; decide)
  have hinside : ExpandMode.word.quoteAfter none '"' = some .double := by decide
  rw [Reference.bare, List.cons_append, List.cons_append, ofText, if_neg (by simp),
    if_neg (Ne.symm hq), if_neg (by decide), hinside, ofText_reference he (by simp) hr, ofText]

end Expansion

end Containerfile
