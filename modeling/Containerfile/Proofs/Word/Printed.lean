import Containerfile.Instruction.Printer
import Containerfile.Proofs.Expansion.Literal
import Containerfile.Proofs.Grammar.Substitution
import Containerfile.Proofs.Word.Quoting
import Containerfile.Proofs.Word.Split

/-! # Values printed as words

A value is printed with a backslash before each character that could mean something else, and
in quotes where it could not stand alone.  It is read back in two passes with different rules.
Filling in drops the backslash before a dollar sign and no other, and unquoting drops those
that are left: outside quotes before any character, between double quotes before the three that
are protected there.  `backslashed` is the form of the text before and between the passes: it
stands for one value whether or not its dollar signs are protected, so it does not matter if
there are variables (`Spells`).

Main statement: `Grammar.word_quoteValue`. -/
namespace Containerfile

/-! ## Backslashes -/

/-- Puts a backslash before each character that satisfies `p`. -/
def backslashed (p : Char → Bool) (t : Text) : Text :=
  t.flatMap fun c => if p c then ['\\', c] else [c]

section Backslashed

variable {p : Char → Bool} {c : Char} {t : Text}

theorem escapeValue_eq (special : Char → Bool) (t : Text) :
    escapeValue special t = backslashed (fun c => c == '\\' || c == '$' || special c) t := rfl

@[simp] theorem backslashed_nil : backslashed p [] = [] := rfl

theorem backslashed_cons_of_pos (h : p c = true) :
    backslashed p (c :: t) = '\\' :: c :: backslashed p t := by
  rw [backslashed, List.flatMap_cons, if_pos h]
  rfl

theorem backslashed_cons_of_neg (h : p c = false) :
    backslashed p (c :: t) = c :: backslashed p t := by
  rw [backslashed, List.flatMap_cons, if_neg (by simp [h])]
  rfl

theorem backslashed_append (p : Char → Bool) (t u : Text) :
    backslashed p (t ++ u) = backslashed p t ++ backslashed p u := List.flatMap_append

/-- Backslashes are no blanks. -/
theorem countP_backslashed (p : Char → Bool) (t : Text) :
    (backslashed p t).countP isBlank = t.countP isBlank := by
  have hbackslash : isBlank '\\' = false := by decide
  induction t with
  | nil => rfl
  | cons c t ih =>
    cases hp : p c with
    | false => rw [backslashed_cons_of_neg hp, List.countP_cons, List.countP_cons, ih]
    | true =>
      rw [backslashed_cons_of_pos hp, List.countP_cons, List.countP_cons, List.countP_cons, ih,
        hbackslash, if_neg Bool.false_ne_true, Nat.add_zero]

section Blanks

variable (hp : ∀ c, isBlank c = true → p c = false)

include hp in
/-- Blanks are printed as they are. -/
theorem backslashed_of_isBlank (h : ∀ c ∈ t, isBlank c = true) : backslashed p t = t := by
  induction t with
  | nil => rfl
  | cons c t ih =>
    rw [List.forall_mem_cons] at h
    rw [backslashed_cons_of_neg (hp c h.1), ih h.2]

/-- A backslash is printed before a character, so the last character stays the last. -/
theorem getLast?_backslashed (p : Char → Bool) (t : Text) :
    (backslashed p t).getLast? = t.getLast? := by
  rcases List.eq_nil_or_concat t with rfl | ⟨u, c, rfl⟩
  · rfl
  · rw [List.concat_eq_append, backslashed_append, List.getLast?_concat]
    cases hpc : p c with
    | false => simp [backslashed, hpc]
    | true => simp [backslashed, hpc]

theorem trimmed_backslashed (h : Text.Trimmed t) : Text.Trimmed (backslashed p t) := by
  have hbackslash : isBlank '\\' = false := by decide
  constructor
  · intro d hd
    cases t with
    | nil => cases hd
    | cons c t =>
      cases hpc : p c with
      | false =>
        rw [backslashed_cons_of_neg hpc] at hd
        exact h.1 d hd
      | true =>
        rw [backslashed_cons_of_pos hpc] at hd
        cases hd
        exact hbackslash
  · rw [getLast?_backslashed]
    exact h.2

include hp in
/-- Trimming commutes with backslashes. -/
theorem trim_backslashed (t : Text) : (backslashed p t).trim = backslashed p t.trim := by
  obtain ⟨before, after, ht, hbefore, hafter⟩ := Text.exists_eq_trim t
  calc (backslashed p t).trim = (before ++ backslashed p t.trim ++ after).trim := by
        conv_lhs => rw [ht, backslashed_append, backslashed_append,
          backslashed_of_isBlank hp hbefore, backslashed_of_isBlank hp hafter]
    _ = (backslashed p t.trim).trim := Text.trim_of_isBlank hbefore hafter
    _ = backslashed p t.trim := Text.trim_eq_self (trimmed_backslashed (Text.trimmed_trim t))

end Blanks

end Backslashed

/-! ## Filling in -/

namespace Expansion

variable {env : Text → Option Binding} {p : Char → Bool} {t u : Text} {quote : Option Quote}

/-- **Filling in drops the backslashes before dollar signs.** -/
theorem ofText_backslashed (hq : quote ≠ some .single)
    (h : ∀ c ∈ t, p c = false →
      c ≠ '\\' ∧ c ≠ '$' ∧ ExpandMode.word.quoteAfter quote c = quote) :
    ofText '\\' .word env quote (backslashed p t ++ u) =
      (literal (backslashed (fun c => p c && c != '$') t)).append
        (ofText '\\' .word env quote u) := by
  induction t with
  | nil => simp [append, literal]
  | cons c t ih =>
    rw [List.forall_mem_cons] at h
    have hrest := ih h.2
    cases hp : p c with
    | false =>
      obtain ⟨hc, hd, hafter⟩ := h.1 hp
      rw [backslashed_cons_of_neg hp, backslashed_cons_of_neg (by rw [hp]; rfl), List.cons_append,
        ofText_cons hc hd, hafter, hrest, ← append_assoc]
      rfl
    | true =>
      rw [backslashed_cons_of_pos hp, List.cons_append, List.cons_append, ofText_protected hq,
        hrest, ← append_assoc, append_literal]
      -- what is protected keeps its backslash for unquoting, unless it is a dollar sign
      by_cases hd : c = '$'
      · rw [backslashed_cons_of_neg (by simp [hd]), ExpandMode.kept, if_pos ⟨hd, by decide⟩]
        rfl
      · rw [backslashed_cons_of_pos (by simp [hp, hd]), ExpandMode.kept, if_neg fun hk => hd hk.1]
        rfl

/-- Between single quotes nothing is filled in. -/
theorem ofText_single (h : '\'' ∉ t) :
    ofText '\\' .word env (some .single) (t ++ u) =
      (literal t).append (ofText '\\' .word env (some .single) u) := by
  induction t with
  | nil => simp [append, literal]
  | cons c t ih =>
    rw [List.mem_cons, not_or] at h
    have hafter : ExpandMode.word.quoteAfter (some .single) c = some .single := by
      by_cases hq : c = '"'
      · rw [hq]
        decide
      · simp [ExpandMode.quoteAfter, Quote.ofChar?, Ne.symm h.1, hq]
    rw [List.cons_append, ofText_cons_single, hafter, ih h.2, ← append_assoc]
    rfl

end Expansion

/-! ## Unquoting -/

namespace Word

variable {escape c : Char} {p special : Char → Bool} {t u : Text}

theorem valueFrom_cons (hc : c ≠ escape) (hq : Quote.ofChar? c = none) :
    valueFrom escape none (c :: t) = c :: valueFrom escape none t := by
  cases t with
  | nil => simp [valueFrom, hq]
  | cons d t => rw [valueFrom, if_neg hc, hq]

/-- **Outside quotes, unquoting undoes the backslashes.** -/
theorem valueFrom_backslashed
    (h : ∀ c ∈ t, p c = false → c ≠ '\\' ∧ Quote.ofChar? c = none) :
    valueFrom '\\' none (backslashed p t ++ u) = t ++ valueFrom '\\' none u := by
  induction t with
  | nil => rfl
  | cons c t ih =>
    rw [List.forall_mem_cons] at h
    cases hp : p c with
    | false =>
      obtain ⟨hc, hq⟩ := h.1 hp
      rw [backslashed_cons_of_neg hp, List.cons_append, valueFrom_cons hc hq, ih h.2]
      rfl
    | true =>
      rw [backslashed_cons_of_pos hp, List.cons_append, List.cons_append, valueFrom, if_pos rfl,
        ih h.2]
      rfl

/-- **Between double quotes a text has itself for its value** where all that is protected may be. -/
theorem enclosed_backslashed
    (h : ∀ c ∈ t, if p c then protects '\\' c = true else c ≠ '\\' ∧ c ≠ '"') :
    Enclosed '\\' (backslashed p t) t := by
  induction t with
  | nil => exact .nil
  | cons c t ih =>
    rw [List.forall_mem_cons] at h
    cases hp : p c with
    | false =>
      obtain ⟨hc, hq⟩ : c ≠ '\\' ∧ c ≠ '"' := by simpa [hp] using h.1
      rw [backslashed_cons_of_neg hp]
      exact .lone hq (fun hescape => absurd hescape hc) (ih h.2)
    | true =>
      have hc : protects '\\' c = true := by simpa [hp] using h.1
      rw [backslashed_cons_of_pos hp]
      exact .unit hc (ih h.2)

/-- A text in single quotes that has none in it. -/
theorem unquote_single (h : '\'' ∉ t) : unquote '\\' ('\'' :: t ++ ['\'']) = (t, .single) :=
  (unquote_eq_single_iff (by decide)).mpr ⟨h, rfl⟩

/-- A text in double quotes with backslashes. -/
theorem unquote_double
    (h : ∀ c ∈ t, if p c then protects '\\' c = true else c ≠ '\\' ∧ c ≠ '"') :
    unquote '\\' ('"' :: backslashed p t ++ ['"']) = (t, .double) :=
  (unquote_eq_double_iff (by decide)).mpr ⟨_, enclosed_backslashed h, rfl⟩

/-- A bare word means itself. -/
theorem Bare.plain (h : Bare escape t) : Plain escape t :=
  ⟨fun c hc => (h.2 c hc).2.1, fun hmem => (h.2 _ (List.dropLast_subset _ hmem)).2.2 rfl⟩

/-- A text without quotes with backslashes. -/
theorem unquote_bare (h : ∀ c ∈ t, p c = false → c ≠ '\\' ∧ Quote.ofChar? c = none) :
    unquote '\\' (backslashed p t) = (t, .unquoted) := by
  have hvalue := valueFrom_backslashed (u := []) h
  rw [valueFrom, List.append_nil, List.append_nil] at hvalue
  have hquoting : quoting '\\' (backslashed p t) = .unquoted := by
    cases t with
    | nil => rfl
    | cons c t =>
      cases hp : p c with
      | false => rw [backslashed_cons_of_neg hp, quoting, (h c List.mem_cons_self hp).2]
      | true =>
        rw [backslashed_cons_of_pos hp]
        rfl
  rw [unquote, value, hvalue, hquoting]

/-- **A printed text with a visible end has one where it is read**, whatever is before it: its
quotes are printed behind backslashes. -/
theorem valueFrom_backslashed_concat (hp : ∀ c, p c = false → Quote.ofChar? c = none)
    (ht : ∀ c ∈ t.getLast?, isBlank c = false) (hne : t ≠ []) (q : Option Quote) (w : Text) :
    ∃ x d, valueFrom '\\' q (w ++ backslashed p t) = x ++ [d] ∧ isBlank d = false := by
  obtain ⟨u, c, rfl⟩ := List.eq_nil_or_concat t |>.resolve_left hne
  rw [List.concat_eq_append] at ht ⊢
  have hc := ht c (by simp)
  cases hpc : p c with
  | false =>
    have hend : backslashed p [c] = [c] := backslashed_cons_of_neg hpc
    obtain ⟨x, hx⟩ := valueFrom_concat (hp c hpc) q (w ++ backslashed p u)
    exact ⟨x, c, by rw [backslashed_append, hend, ← List.append_assoc, hx], hc⟩
  | true =>
    have hend : backslashed p [c] = ['\\', c] := backslashed_cons_of_pos hpc
    have hescape : Quote.ofChar? '\\' = none := by decide
    obtain ⟨x, d, hx, hd⟩ := valueFrom_concat_escape hescape c q (w ++ backslashed p u)
    refine ⟨x, d, by rw [backslashed_append, hend, ← List.append_assoc, hx], ?_⟩
    rcases hd with rfl | rfl
    · decide
    · exact hc

/-! ## Splitting -/

theorem passes_backslashed
    (h : ∀ c ∈ t, p c = false → c ≠ '\\' ∧ Quote.ofChar? c = none ∧ isBlank c = false) :
    Passes '\\' .bare (backslashed p t) .bare := by
  induction t with
  | nil => rfl
  | cons c t ih =>
    rw [List.forall_mem_cons] at h
    cases hp : p c with
    | false =>
      obtain ⟨hc, hq, hb⟩ := h.1 hp
      have hbare : BareChar '\\' c := ⟨hb, hq, hc⟩
      rw [backslashed_cons_of_neg hp, Passes, hbare.step]
      exact ⟨by simp [ends, hb], ih h.2⟩
    | true =>
      rw [backslashed_cons_of_pos hp]
      exact ⟨rfl, rfl, ih h.2⟩

theorem passes_backslashed_double (h : ∀ c ∈ t, p c = false → c ≠ '\\' ∧ c ≠ '"') :
    Passes '\\' (.within .double) (backslashed p t) (.within .double) := by
  induction t with
  | nil => rfl
  | cons c t ih =>
    rw [List.forall_mem_cons] at h
    cases hp : p c with
    | false =>
      obtain ⟨hc, hq⟩ := h.1 hp
      rw [backslashed_cons_of_neg hp, Passes, Shelter.step, if_neg hq, if_neg hc]
      exact ⟨rfl, ih h.2⟩
    | true =>
      rw [backslashed_cons_of_pos hp]
      exact ⟨rfl, rfl, ih h.2⟩

theorem passes_single (h : '\'' ∉ t) : Passes '\\' (.within .single) t (.within .single) := by
  induction t with
  | nil => rfl
  | cons c t ih =>
    rw [List.mem_cons, not_or] at h
    rw [Passes, Shelter.step, if_neg (Ne.symm h.1)]
    exact ⟨rfl, ih h.2⟩

/-- **No word ends in text that leaves its quotes with a last quote.** -/
theorem passes_quoted {quote : Quote} (h : Passes '\\' (.within quote) t (.within quote)) :
    Passes '\\' .bare (quote.char :: t ++ [quote.char]) .bare := by
  have hclose : Passes '\\' (.within quote) [quote.char] .bare := by
    cases quote <;> exact ⟨rfl, rfl⟩
  have hopen : Shelter.bare.step '\\' quote.char = .within quote ∧
      ends '\\' .bare quote.char = false := by
    cases quote <;> decide
  refine ⟨hopen.2, ?_⟩
  rw [hopen.1]
  exact h.append hclose

theorem trimmed_quoted (quote : Quote) (t : Text) :
    Text.Trimmed (quote.char :: t ++ [quote.char]) := by
  have hquote : isBlank quote.char = false := by cases quote <;> decide
  constructor
  · rintro c ⟨⟩
    exact hquote
  · intro c hc
    rw [List.getLast?_concat] at hc
    cases hc
    exact hquote

/-! ## Cutting -/

theorem cutFrom_backslashed {mark : Char} (hm : mark ≠ '\\') (h : mark ∉ t)
    (hp : ∀ c ∈ t, p c = false → c ≠ '\\' ∧ Quote.ofChar? c = none) :
    cutFrom '\\' mark .bare (backslashed p t) = none := by
  induction t with
  | nil => rfl
  | cons c t ih =>
    rw [List.mem_cons, not_or] at h
    rw [List.forall_mem_cons] at hp
    have hrest := ih h.2 hp.2
    cases hpc : p c with
    | false =>
      have hstep : Shelter.bare.step '\\' c = .bare := by simp [Shelter.step, hp.1 hpc]
      rw [backslashed_cons_of_neg hpc, cutFrom_cons_eq_none_iff, hstep]
      exact ⟨fun hc => h.1 hc.2.symm, hrest⟩
    | true =>
      rw [backslashed_cons_of_pos hpc, cutFrom_cons_eq_none_iff, cutFrom_cons_eq_none_iff]
      exact ⟨fun hc => hm hc.2.symm, by simp [Shelter.step], hrest⟩

/-- There is no mark outside quotes in a text that is all in quotes. -/
theorem cutFrom_backslashed_double (mark : Char)
    (h : ∀ c ∈ t, p c = false → c ≠ '\\' ∧ c ≠ '"') :
    cutFrom '\\' mark (.within .double) (backslashed p t ++ ['"']) = none := by
  induction t with
  | nil => simp [cutFrom]
  | cons c t ih =>
    rw [List.forall_mem_cons] at h
    have hrest := ih h.2
    cases hp : p c with
    | false =>
      obtain ⟨hc, hq⟩ := h.1 hp
      rw [backslashed_cons_of_neg hp, List.cons_append, cutFrom_cons_eq_none_iff, Shelter.step,
        if_neg hq, if_neg hc]
      exact ⟨by simp, hrest⟩
    | true =>
      rw [backslashed_cons_of_pos hp, List.cons_append, List.cons_append, cutFrom_cons_eq_none_iff,
        cutFrom_cons_eq_none_iff]
      exact ⟨by simp, by simp [Shelter.step], hrest⟩

end Word

/-! ## Words that stand for a value -/

/-- A word that is read as a value in a way of quoting, whether or not variables are filled in. -/
structure Spells (w value : Text) (quoting : Quoting) : Prop where
  unfilled : Word.unquote '\\' w = (value, quoting)
  filled : ∀ env, ∃ u, Expansion.ofText '\\' .word env none w = .literal u ∧
    Word.unquote '\\' u = (value, quoting)

section Spells

variable {p : Char → Bool} {t w value : Text} {quoting : Quoting} {cx : Context}

theorem spells_single (h : '\'' ∉ t) : Spells ('\'' :: t ++ ['\'']) t .single where
  unfilled := Word.unquote_single h
  filled env := by
    refine ⟨'\'' :: t ++ ['\''], ?_, Word.unquote_single h⟩
    have hopen : ExpandMode.word.quoteAfter none '\'' = some .single := by decide
    rw [List.cons_append, Expansion.ofText_cons (by decide) (by decide), hopen,
      Expansion.ofText_single h, Expansion.ofText]
    rfl

theorem spells_double (h : ∀ c ∈ t, if p c then Word.protects '\\' c = true
      else c ≠ '\\' ∧ c ≠ '$' ∧ c ≠ '"') :
    Spells ('"' :: backslashed p t ++ ['"']) t .double where
  unfilled := Word.unquote_double (by grind)
  filled env := by
    refine ⟨'"' :: backslashed (fun c => p c && c != '$') t ++ ['"'], ?_,
      Word.unquote_double (by grind [Word.protects])⟩
    have hopen : ExpandMode.word.quoteAfter none '"' = some .double := by decide
    -- a single quote changes nothing between double quotes
    have hstays : ∀ c ∈ t, p c = false →
        c ≠ '\\' ∧ c ≠ '$' ∧ ExpandMode.word.quoteAfter (some .double) c = some .double := by
      intro c hc hp
      obtain ⟨he, hd, hq⟩ : c ≠ '\\' ∧ c ≠ '$' ∧ c ≠ '"' := by simpa [hp] using h c hc
      refine ⟨he, hd, ?_⟩
      by_cases hs : c = '\''
      · rw [hs]
        decide
      · simp [ExpandMode.quoteAfter, Quote.ofChar?, hs, hq]
    rw [List.cons_append, Expansion.ofText_cons (by decide) (by decide), hopen,
      Expansion.ofText_backslashed (by decide) hstays, Expansion.ofText]
    rfl

theorem spells_bare
    (h : ∀ c ∈ t, p c = false → c ≠ '\\' ∧ c ≠ '$' ∧ Quote.ofChar? c = none) :
    Spells (backslashed p t) t .unquoted where
  unfilled := Word.unquote_bare fun c hc hp => ⟨(h c hc hp).1, (h c hc hp).2.2⟩
  filled env := by
    -- filling in takes backslashes away from dollar signs only, and these mean nothing any more
    have hdropped : ∀ c ∈ t, (p c && c != '$') = false → c ≠ '\\' ∧ Quote.ofChar? c = none := by
      intro c hc hp
      by_cases hd : c = '$'
      · rw [hd]
        decide
      · have hpc : p c = false := by simpa [hd] using hp
        exact ⟨(h c hc hpc).1, (h c hc hpc).2.2⟩
    refine ⟨backslashed (fun c => p c && c != '$') t, ?_, Word.unquote_bare hdropped⟩
    have hstays : ∀ c ∈ t, p c = false →
        c ≠ '\\' ∧ c ≠ '$' ∧ ExpandMode.word.quoteAfter none c = none := by
      intro c hc hp
      obtain ⟨he, hd, hq⟩ := h c hc hp
      exact ⟨he, hd, by simp [ExpandMode.quoteAfter, hq]⟩
    have hfill : Expansion.ofText '\\' .word env none (backslashed p t ++ []) = _ :=
      Expansion.ofText_backslashed (by decide) hstays
    rw [List.append_nil, Expansion.ofText] at hfill
    rw [hfill]
    simp [Expansion.append, Expansion.literal]

/-- Text without dollar signs is not filled in. -/
theorem Grammar.filling_of_dollarless (h : '$' ∉ t) (seen : Visibility) (mode : ExpandMode) :
    filling cx seen mode t = .literal t := by
  rw [filling]
  cases cx.scope with
  | none => rfl
  | some scope => cases seen <;> exact Expansion.ofText_of_dollarless h

theorem Grammar.filling_spells (h : Spells w value quoting)
    (hs : ∀ scope ∈ cx.scope, scope.escape = defaultEscape) (seen : Visibility) :
    ∃ u, filling cx seen .word w = .literal u ∧
      Word.unquote defaultEscape u = (value, quoting) := by
  rw [filling]
  cases hscope : cx.scope with
  | none => exact ⟨w, rfl, h.unfilled⟩
  | some scope =>
    have hescape := hs scope hscope
    cases seen with
    | everywhere =>
      dsimp only [expansion, Scope.expand]
      rw [hescape]
      exact h.filled _
    | globalOnly =>
      dsimp only [expansion, Scope.expandGlobal]
      rw [hescape]
      exact h.filled _

/-- **Such a word is read as its value in every scope.** -/
theorem Grammar.word_spells (h : Spells w value quoting) (he : cx.escape = defaultEscape)
    (hs : ∀ scope ∈ cx.scope, scope.escape = defaultEscape) (seen : Visibility) :
    word seen w cx = ⟨.ok (value, quoting), []⟩ := by
  obtain ⟨u, hfill, hvalue⟩ := filling_spells h hs seen
  rw [word_run, hfill, he]
  simp only [Expansion.literal, hvalue]

end Spells

/-! ## Printed values -/

/-- How a value is quoted when it is printed: in double quotes where it cannot stand as it
should. -/
def Quoting.written (q : Quoting) (value : Text) : Quoting :=
  match q with
  | .single => if value.contains '\'' then .double else .single
  | .double => .double
  | .unquoted => if needsQuotes value then .double else .unquoted

section Printed

variable {v : Text}

/-- A character that is printed without a backslash. -/
theorem escapeValue_neg (special : Char → Bool) {c : Char}
    (h : (c == '\\' || c == '$' || special c) = false) :
    c ≠ '\\' ∧ c ≠ '$' ∧ special c = false := by
  simp only [Bool.or_eq_false_iff, beq_eq_false_iff_ne] at h
  exact ⟨h.1.1, h.1.2, h.2⟩

/-- A character that is printed without a backslash where quotes have one. -/
theorem ofChar?_of_escapeValue_neg {c : Char}
    (h : (c == '\\' || c == '$' || (c == '"' || c == '\'')) = false) : Quote.ofChar? c = none := by
  obtain ⟨-, -, hq⟩ := escapeValue_neg (fun c => c == '"' || c == '\'') h
  rw [Bool.or_eq_false_iff, beq_eq_false_iff_ne, beq_eq_false_iff_ne] at hq
  simp [Quote.ofChar?, hq]

/-- Escaped text begins with no quote: a quote at the beginning stands behind a backslash. -/
theorem ofChar?_of_head?_escapeValue {c : Char}
    (h : c ∈ (escapeValue (fun c => c == '"' || c == '\'') v).head?) : Quote.ofChar? c = none := by
  rw [escapeValue_eq] at h
  cases v with
  | nil => cases h
  | cons d v =>
    cases hd : d == '\\' || d == '$' || (d == '"' || d == '\'') with
    | true =>
      rw [backslashed_cons_of_pos hd] at h
      cases h
      decide
    | false =>
      rw [backslashed_cons_of_neg hd] at h
      cases h
      exact ofChar?_of_escapeValue_neg hd

/-- A value stands for itself, blanks included, with its quotes behind backslashes. -/
theorem spells_escaped (v : Text) :
    Spells (escapeValue (fun c => c == '"' || c == '\'') v) v .unquoted := by
  rw [escapeValue_eq]
  refine spells_bare fun c _ hp => ?_
  obtain ⟨he, hd, -⟩ := escapeValue_neg (fun c => c == '"' || c == '\'') hp
  exact ⟨he, hd, ofChar?_of_escapeValue_neg hp⟩

theorem spells_doubleQuoted (v : Text) : Spells (doubleQuoted v) v .double := by
  rw [doubleQuoted, escapeValue_eq]
  refine spells_double fun c _ => ?_
  cases hp : c == '\\' || c == '$' || c == '"' with
  | true =>
    simp only [Bool.or_eq_true, beq_iff_eq] at hp
    simpa [Word.protects] using by tauto
  | false =>
    obtain ⟨he, hd, hq⟩ := escapeValue_neg (· == '"') hp
    exact ⟨he, hd, beq_eq_false_iff_ne.mp hq⟩

theorem passes_doubleQuoted (v : Text) :
    Word.Passes defaultEscape .bare (doubleQuoted v) .bare := by
  rw [doubleQuoted, escapeValue_eq]
  refine Word.passes_quoted (Word.passes_backslashed_double fun c _ hp => ?_)
  obtain ⟨he, -, hq⟩ := escapeValue_neg (· == '"') hp
  exact ⟨he, beq_eq_false_iff_ne.mp hq⟩

/-- A value that needs no quotes has no blanks and no quotes. -/
theorem of_needsQuotes_eq_false (h : needsQuotes v = false) :
    ∀ c ∈ v, isBlank c = false ∧ Quote.ofChar? c = none := by
  intro c hc
  have hnone := List.any_eq_false.mp h c hc
  simp only [Bool.or_eq_true, beq_iff_eq, not_or, Bool.not_eq_true] at hnone
  obtain ⟨⟨hb, hd⟩, hs⟩ := hnone
  exact ⟨hb, by simp [Quote.ofChar?, hs, hd]⟩

/-- The three forms of a printed value. -/
theorem quoteValue_cases (q : Quoting) (v : Text) :
    ('\'' ∉ v ∧ quoteValue q v = '\'' :: v ++ ['\''] ∧ q.written v = .single) ∨
      (quoteValue q v = doubleQuoted v ∧ q.written v = .double) ∨
      (needsQuotes v = false ∧ quoteValue q v = escapeValue (fun _ => false) v ∧
        q.written v = .unquoted) := by
  cases q with
  | single =>
    rw [quoteValue, Quoting.written]
    by_cases hquote : v.contains '\''
    · rw [if_pos hquote, if_pos hquote]
      exact .inr (.inl ⟨rfl, rfl⟩)
    · rw [if_neg hquote, if_neg hquote]
      exact .inl ⟨by simpa using hquote, rfl, rfl⟩
  | double => exact .inr (.inl ⟨rfl, rfl⟩)
  | unquoted =>
    rw [quoteValue, Quoting.written]
    by_cases hneeds : needsQuotes v
    · rw [if_pos hneeds, if_pos hneeds]
      exact .inr (.inl ⟨rfl, rfl⟩)
    · rw [if_neg hneeds, if_neg hneeds]
      exact .inr (.inr ⟨Bool.not_eq_true _ ▸ hneeds, rfl, rfl⟩)

theorem spells_quoteValue (q : Quoting) (v : Text) : Spells (quoteValue q v) v (q.written v) := by
  rcases quoteValue_cases q v with ⟨hquote, hv, hq⟩ | ⟨hv, hq⟩ | ⟨hneeds, hv, hq⟩ <;> rw [hv, hq]
  · exact spells_single hquote
  · exact spells_doubleQuoted v
  · rw [escapeValue_eq]
    refine spells_bare fun c hc hp => ?_
    obtain ⟨he, hd, -⟩ := escapeValue_neg (fun _ => false) hp
    exact ⟨he, hd, (of_needsQuotes_eq_false hneeds c hc).2⟩

/-- No word ends in a printed value. -/
theorem passes_quoteValue (q : Quoting) (v : Text) :
    Word.Passes defaultEscape .bare (quoteValue q v) .bare := by
  rcases quoteValue_cases q v with ⟨hquote, hv, -⟩ | ⟨hv, -⟩ | ⟨hneeds, hv, -⟩
  · rw [hv]
    exact Word.passes_quoted (Word.passes_single hquote)
  · rw [hv]
    exact passes_doubleQuoted v
  · rw [hv, escapeValue_eq]
    refine Word.passes_backslashed fun c hc hp => ?_
    obtain ⟨hb, hq⟩ := of_needsQuotes_eq_false hneeds c hc
    exact ⟨(escapeValue_neg (fun _ => false) hp).1, hq, hb⟩

theorem trimmed_quoteValue (q : Quoting) (v : Text) : Text.Trimmed (quoteValue q v) := by
  rcases quoteValue_cases q v with ⟨-, hv, -⟩ | ⟨hv, -⟩ | ⟨hneeds, hv, -⟩
  · rw [hv]
    exact Word.trimmed_quoted .single v
  · rw [hv]
    exact Word.trimmed_quoted .double _
  · have hvisible : ∀ c ∈ v, isBlank c = false :=
      fun c hc => (of_needsQuotes_eq_false hneeds c hc).1
    rw [hv, escapeValue_eq]
    apply trimmed_backslashed
    exact ⟨fun c hc => hvisible c (List.mem_of_mem_head? hc),
      fun c hc => hvisible c (List.mem_of_mem_getLast? hc)⟩

theorem value_quoteValue (q : Quoting) (v : Text) : Word.value defaultEscape (quoteValue q v) = v :=
  congrArg Prod.fst (spells_quoteValue q v).unfilled

theorem quoteValue_ne_nil (h : v ≠ []) (q : Quoting) : quoteValue q v ≠ [] := by
  intro hnil
  have hvalue := value_quoteValue q v
  rw [hnil] at hvalue
  exact h hvalue.symm

/-- Printing adds no blanks. -/
theorem countP_quoteValue (q : Quoting) (v : Text) :
    (quoteValue q v).countP isBlank = v.countP isBlank := by
  have hescape : isBlank defaultEscape = false := by decide
  have hcount := Word.countP_valueFrom hescape none (quoteValue q v)
  rwa [← Word.value, value_quoteValue, eq_comm] at hcount

theorem any_isBlank_quoteValue (q : Quoting) (v : Text) :
    (quoteValue q v).any isBlank = v.any isBlank := by
  rw [Bool.eq_iff_iff, List.any_eq_true, List.any_eq_true, ← List.countP_pos_iff,
    ← List.countP_pos_iff, countP_quoteValue]

/-- A printed value that is something is a word of its own. -/
theorem whole_quoteValue {q : Quoting} (h : quoteValue q v ≠ []) :
    Word.Whole defaultEscape (quoteValue q v) :=
  ⟨h, (trimmed_quoteValue q v).1, passes_quoteValue q v⟩

/-- A printed value is one word, if it is anything. -/
theorem split_quoteValue {q : Quoting} (h : quoteValue q v ≠ []) :
    Word.split defaultEscape (quoteValue q v) = [quoteValue q v] := (whole_quoteValue h).split

/-! ## Printed names -/

/-- A name whose equals signs, if it has any, are printed in quotes. -/
def HidesEquals (name : Text) : Prop := '=' ∈ name → needsQuotes name = true

theorem quoteValue_of_needsQuotes (h : needsQuotes v = true) :
    quoteValue .unquoted v = doubleQuoted v := by rw [quoteValue, if_pos h]

theorem quoteValue_of_not_needsQuotes (h : needsQuotes v = false) :
    quoteValue .unquoted v = escapeValue (fun _ => false) v := by
  rw [quoteValue, h, if_neg Bool.false_ne_true]

/-- **A printed name has no equals sign outside quotes**, if its equals signs are printed in
quotes. -/
theorem cut?_quoteValue (h : HidesEquals v) :
    Word.cut? defaultEscape '=' (quoteValue .unquoted v) = none := by
  cases hneeds : needsQuotes v with
  | true =>
    have hinside : Word.cutFrom '\\' '=' (.within .double)
        (escapeValue (· == '"') v ++ ['"']) = none := by
      refine Word.cutFrom_backslashed_double '=' fun c _ hp => ?_
      obtain ⟨he, -, hq⟩ := escapeValue_neg (· == '"') hp
      exact ⟨he, beq_eq_false_iff_ne.mp hq⟩
    rw [quoteValue_of_needsQuotes hneeds, doubleQuoted, Word.cut?, List.cons_append,
      Word.cutFrom_cons_eq_none_iff]
    exact ⟨by decide, hinside⟩
  | false =>
    have hequals : '=' ∉ v := fun hmem => by rw [h hmem] at hneeds; cases hneeds
    rw [quoteValue_of_not_needsQuotes hneeds, escapeValue_eq, Word.cut?]
    refine Word.cutFrom_backslashed (by decide) hequals fun c hc hp => ?_
    exact ⟨(escapeValue_neg (fun _ => false) hp).1, (of_needsQuotes_eq_false hneeds c hc).2⟩

/-- **Otherwise it is cut inside**, and a part of it is taken for the whole. -/
theorem cut?_quoteValue_of_not (h : ¬ HidesEquals v) (u : Text) :
    ∃ name raw, Word.cut? defaultEscape '=' (quoteValue .unquoted v ++ u) = some (name, raw) ∧
      Word.value defaultEscape name ≠ v := by
  rw [HidesEquals, Classical.not_imp, Bool.not_eq_true] at h
  obtain ⟨hmem, hneeds⟩ := h
  obtain ⟨before, after, rfl, hbefore⟩ := List.eq_append_cons_of_mem hmem
  have hplain : ∀ c ∈ before, (c == '\\' || c == '$' || false) = false →
      c ≠ '\\' ∧ Quote.ofChar? c = none ∧ isBlank c = false := by
    intro c hc hp
    obtain ⟨hb, hq⟩ := of_needsQuotes_eq_false hneeds c (List.mem_append_left _ hc)
    exact ⟨(escapeValue_neg (fun _ => false) hp).1, hq, hb⟩
  have hunquoted : ∀ c ∈ before, (c == '\\' || c == '$' || false) = false →
      c ≠ '\\' ∧ Quote.ofChar? c = none := fun c hc hp => ⟨(hplain c hc hp).1, (hplain c hc hp).2.1⟩
  refine ⟨escapeValue (fun _ => false) before, escapeValue (fun _ => false) after ++ u, ?_, ?_⟩
  · rw [quoteValue_of_not_needsQuotes hneeds, escapeValue_eq, backslashed_append,
      backslashed_cons_of_neg (by decide), List.append_assoc, List.cons_append]
    exact Word.cut?_of_name (Word.passes_backslashed hplain)
      (Word.cutFrom_backslashed (by decide) hbefore hunquoted)
  · have hvalue : Word.value '\\' (backslashed _ before) = before :=
      congrArg Prod.fst (Word.unquote_bare hunquoted)
    intro heq
    have hlength := congrArg List.length (hvalue.symm.trans heq)
    simp at hlength

/-- **What is printed for a value is read as this value**, whatever variables there are, and refers
to none of them; and it is one word, if it is anything. -/
theorem Grammar.word_quoteValue (q : Quoting) (v : Text) (seen : Visibility) {cx : Context}
    (he : cx.escape = defaultEscape) (hs : ∀ scope ∈ cx.scope, scope.escape = defaultEscape) :
    word seen (quoteValue q v) cx = ⟨.ok (v, q.written v), []⟩ ∧
      (quoteValue q v ≠ [] → Word.split defaultEscape (quoteValue q v) = [quoteValue q v]) :=
  ⟨word_spells (spells_quoteValue q v) he hs seen, split_quoteValue⟩

/-- A value with a single quote is printed in double quotes, and its reference stays one. -/
theorem Grammar.word_quoteValue_apostrophe :
    quoteValue .single "it's $N \\".toList = "\"it's \\$N \\\\\"".toList ∧
      word .everywhere "\"it's \\$N \\\\\"".toList (quoteAndBlank.context [none]) =
        ⟨.ok ("it's $N \\".toList, .double), []⟩ ∧
      Word.split defaultEscape "\"it's \\$N \\\\\"".toList = ["\"it's \\$N \\\\\"".toList] := by
  have hescape : ∀ scope ∈ (quoteAndBlank.context [none]).scope, scope.escape = defaultEscape := by
    rintro scope ⟨⟩
    rfl
  have hprinted : quoteValue .single "it's $N \\".toList = "\"it's \\$N \\\\\"".toList := by decide
  have hwritten : Quoting.single.written "it's $N \\".toList = .double := by decide
  have hword := @word_quoteValue .single "it's $N \\".toList .everywhere
    (quoteAndBlank.context [none]) rfl hescape
  rw [hprinted, hwritten] at hword
  exact ⟨hprinted, hword.1, hword.2 (by decide)⟩

end Printed

end Containerfile
