import Containerfile.Proofs.Word.Unquote

/-! # Words that are quoted as a whole

Each way of quoting says exactly how a word is written.  A word in single quotes is a text
without single quotes between two of them, and a word in double quotes is a text that can stand
between double quotes, with one at either end (`Word.Enclosed`).  All other words are unquoted:
those of several segments, those whose quotes are opened again or stay open, and those whose
last quote is protected.

Main statement: `Word.unquote_exact`. -/
namespace Containerfile.Word

/-- A text that can stand between double quotes, with its value there. -/
inductive Enclosed (escape : Char) : Text → Text → Prop
  | nil : Enclosed escape [] []
  /-- An escape character and what it protects stand for the second of the two. -/
  | unit {c : Char} {body v : Text} (hc : protects escape c = true) (h : Enclosed escape body v) :
      Enclosed escape (escape :: c :: body) (c :: v)
  /-- Other characters stand for themselves.  None is a double quote, and none is an escape
  character that protects the next one, which is the closing quote at the end. -/
  | lone {c : Char} {body v : Text} (hc : c ≠ '"')
      (hnext : c = escape → ∀ d ∈ (body ++ ['"']).head?, protects escape d = false)
      (h : Enclosed escape body v) : Enclosed escape (c :: body) (c :: v)

variable {escape : Char} {q : Quote} {t v w body : Text}

/-! ## Single quotes -/

theorem valueFrom_single (h : '\'' ∉ t) : valueFrom escape (some .single) (t ++ ['\'']) = t := by
  induction t with
  | nil => rfl
  | cons c t ih =>
    rw [List.mem_cons, not_or] at h
    rw [List.cons_append, valueFrom, if_neg (Ne.symm h.1), ih h.2]

/-- Single quotes are closed at the end if the single quote there is the only one. -/
theorem closesAtEnd_single_iff :
    closesAtEnd escape .single t = true ↔ ∃ s, '\'' ∉ s ∧ t = s ++ ['\''] := by
  induction t with
  | nil => simp [closesAtEnd]
  | cons c t ih =>
    have hcons : (∃ s, '\'' ∉ s ∧ c :: t = s ++ ['\'']) ↔
        c = '\'' ∧ t = [] ∨ c ≠ '\'' ∧ ∃ s, '\'' ∉ s ∧ t = s ++ ['\''] := by
      constructor
      · rintro ⟨s, hs, hc⟩
        rcases List.cons_eq_append_iff.mp hc with ⟨rfl, hc⟩ | ⟨u, rfl, hu⟩
        · obtain ⟨rfl, rfl⟩ := List.cons.inj hc
          exact .inl ⟨rfl, rfl⟩
        · rw [List.mem_cons, not_or] at hs
          exact .inr ⟨Ne.symm hs.1, u, hs.2, hu⟩
      · rintro (⟨rfl, rfl⟩ | ⟨hc, s, hs, rfl⟩)
        · exact ⟨[], List.not_mem_nil, rfl⟩
        · exact ⟨c :: s, List.not_mem_cons_of_ne_of_not_mem (Ne.symm hc) hs, rfl⟩
    rw [hcons]
    cases t with
    | nil => simp [closesAtEnd, Quote.char]
    | cons d t =>
      rw [closesAtEnd, if_neg (by simp), Quote.char, ← ih]
      by_cases hc : c = '\''
      · simp [hc]
      · simp [hc]

/-! ## Double quotes -/

/-- What can stand between double quotes is closed by the one at its end, and not before. -/
theorem Enclosed.closesAtEnd (h : Enclosed escape body v) :
    Word.closesAtEnd escape .double (body ++ ['"']) = true := by
  induction h with
  | nil => rfl
  | unit hc _ ih =>
    rw [List.cons_append, List.cons_append, Word.closesAtEnd, if_pos ⟨rfl, rfl, hc⟩, ih]
  | @lone c body v hc hnext _ ih =>
    obtain ⟨d, u, hu⟩ := List.exists_cons_of_ne_nil (l := body ++ ['"']) (by simp)
    rw [hu] at ih hnext
    rw [List.cons_append, hu, Word.closesAtEnd, Quote.char, if_neg, if_neg hc, ih]
    rintro ⟨-, hescape, hprotects⟩
    rw [hnext hescape d rfl] at hprotects
    cases hprotects

theorem Enclosed.valueFrom (h : Enclosed escape body v) :
    Word.valueFrom escape (some .double) (body ++ ['"']) = v := by
  induction h with
  | nil => rfl
  | unit hc _ ih => rw [List.cons_append, List.cons_append, Word.valueFrom, if_pos ⟨rfl, hc⟩, ih]
  | @lone c body v hc hnext _ ih =>
    obtain ⟨d, u, hu⟩ := List.exists_cons_of_ne_nil (l := body ++ ['"']) (by simp)
    rw [hu] at ih hnext
    rw [List.cons_append, hu, Word.valueFrom, if_neg, if_neg hc, ih]
    rintro ⟨hescape, hprotects⟩
    rw [hnext hescape d rfl] at hprotects
    cases hprotects

/-- What double quotes are closed behind can stand between them. -/
theorem enclosed_of_closesAtEnd :
    ∀ t : Text, closesAtEnd escape .double t = true →
      ∃ body v, Enclosed escape body v ∧ t = body ++ ['"']
  | [], h => by cases h
  | [c], h => by
    rw [closesAtEnd, beq_iff_eq] at h
    exact ⟨[], [], .nil, congrArg (fun a => [a]) h⟩
  | c :: d :: t, h => by
    rw [closesAtEnd] at h
    by_cases hunit : c = escape ∧ protects escape d = true
    · rw [if_pos ⟨rfl, hunit⟩] at h
      obtain ⟨body, v, hbody, rfl⟩ := enclosed_of_closesAtEnd t h
      obtain ⟨rfl, hprotects⟩ := hunit
      exact ⟨c :: d :: body, d :: v, .unit hprotects hbody, rfl⟩
    · rw [if_neg fun hk => hunit hk.2] at h
      split at h
      · cases h
      · rename_i hquote
        obtain ⟨body, v, hbody, hrest⟩ := enclosed_of_closesAtEnd (d :: t) h
        refine ⟨c :: body, c :: v, .lone hquote (fun hc x hx => ?_) hbody, congrArg (c :: ·) hrest⟩
        rw [← hrest] at hx
        cases hx
        exact Bool.eq_false_iff.mpr fun hprotects => hunit ⟨hc, hprotects⟩

/-! ## Whole words -/

/-- A word is quoted as a whole if its first character is a quote that its last one closes. -/
theorem quoting_eq_ofQuote_iff (he : q.char ≠ escape) :
    quoting escape w = .ofQuote q ↔ ∃ t, w = q.char :: t ∧ closesAtEnd escape q t = true := by
  have hne : ∀ r : Quote, Quoting.ofQuote r ≠ .unquoted := by
    intro r
    cases r <;> simp [Quoting.ofQuote]
  have hinj : ∀ r : Quote, Quoting.ofQuote r = .ofQuote q → r = q := by
    intro r
    cases r <;> cases q <;> simp [Quoting.ofQuote]
  constructor
  · intro h
    cases w with
    | nil => exact absurd h.symm (hne q)
    | cons c t =>
      rw [quoting] at h
      split at h
      · rename_i r hr
        split at h
        · rename_i hclose
          obtain rfl := hinj r h
          exact ⟨t, by rw [ofChar?_eq_some_iff.mp hr], hclose.2⟩
        · exact absurd h.symm (hne q)
      · exact absurd h.symm (hne q)
  · rintro ⟨t, rfl, hclose⟩
    rw [quoting, ofChar?_eq_some_iff.mpr rfl]
    exact if_pos ⟨he, hclose⟩

/-- The value of a word that begins with a quote. -/
theorem value_quote (he : q.char ≠ escape) (ht : t ≠ []) :
    value escape (q.char :: t) = valueFrom escape (some q) t := by
  obtain ⟨d, u, rfl⟩ := List.exists_cons_of_ne_nil ht
  rw [value, valueFrom, if_neg he, ofChar?_eq_some_iff.mpr rfl]

/-- **A word in single quotes** is its value between two of them. -/
theorem unquote_eq_single_iff (he : escape ≠ '\'') :
    unquote escape w = (v, .single) ↔ '\'' ∉ v ∧ w = '\'' :: v ++ ['\''] := by
  have he : Quote.single.char ≠ escape := Ne.symm he
  rw [unquote, Prod.mk.injEq, show Quoting.single = .ofQuote .single from rfl,
    quoting_eq_ofQuote_iff he]
  constructor
  · rintro ⟨rfl, t, rfl, hclose⟩
    obtain ⟨s, hs, rfl⟩ := closesAtEnd_single_iff.mp hclose
    rw [value_quote he (by simp), valueFrom_single hs]
    exact ⟨hs, rfl⟩
  · rintro ⟨hv, rfl⟩
    rw [List.cons_append]
    exact ⟨(value_quote he (by simp)).trans (valueFrom_single hv), _, rfl,
      closesAtEnd_single_iff.mpr ⟨v, hv, rfl⟩⟩

/-- **A word in double quotes** is a text that can stand between them and has its value there. -/
theorem unquote_eq_double_iff (he : escape ≠ '"') :
    unquote escape w = (v, .double) ↔
      ∃ body, Enclosed escape body v ∧ w = '"' :: body ++ ['"'] := by
  have he : Quote.double.char ≠ escape := Ne.symm he
  rw [unquote, Prod.mk.injEq, show Quoting.double = .ofQuote .double from rfl,
    quoting_eq_ofQuote_iff he]
  constructor
  · rintro ⟨rfl, t, rfl, hclose⟩
    obtain ⟨body, v, hbody, rfl⟩ := enclosed_of_closesAtEnd t hclose
    rw [value_quote he (by simp), hbody.valueFrom]
    exact ⟨body, hbody, rfl⟩
  · rintro ⟨body, hbody, rfl⟩
    rw [List.cons_append]
    exact ⟨(value_quote he (by simp)).trans hbody.valueFrom, _, rfl, hbody.closesAtEnd⟩

/-- **The way of quoting is exact.**  A word is in single quotes exactly if it is one segment of
them, whose inside is the value; it is in double quotes exactly if it is one segment of them, whose
inside has the value; and it is unquoted exactly if it is neither. -/
theorem unquote_exact (he : Quote.ofChar? escape = none) (w : Text) :
    (∀ v, unquote escape w = (v, .single) ↔ '\'' ∉ v ∧ w = '\'' :: v ++ ['\'']) ∧
      (∀ v, unquote escape w = (v, .double) ↔
        ∃ body, Enclosed escape body v ∧ w = '"' :: body ++ ['"']) ∧
      ((unquote escape w).2 = .unquoted ↔
        (∀ s, '\'' ∉ s → w ≠ '\'' :: s ++ ['\'']) ∧
          ∀ body v, Enclosed escape body v → w ≠ '"' :: body ++ ['"']) := by
  have hquote : ∀ q : Quote, escape ≠ q.char := by
    rintro q rfl
    rw [ofChar?_eq_some_iff.mpr rfl] at he
    cases he
  have hsingle : ∀ v, unquote escape w = (v, .single) ↔ '\'' ∉ v ∧ w = '\'' :: v ++ ['\''] :=
    fun v => unquote_eq_single_iff (hquote .single)
  have hdouble : ∀ v, unquote escape w = (v, .double) ↔
      ∃ body, Enclosed escape body v ∧ w = '"' :: body ++ ['"'] :=
    fun v => unquote_eq_double_iff (hquote .double)
  refine ⟨hsingle, hdouble, ?_, ?_⟩
  · intro h
    refine ⟨fun s hs hw => ?_, fun body v hbody hw => ?_⟩
    · rw [(hsingle s).mpr ⟨hs, hw⟩] at h
      cases h
    · rw [(hdouble v).mpr ⟨body, hbody, hw⟩] at h
      cases h
  · rintro ⟨hnotSingle, hnotDouble⟩
    cases hstyle : (unquote escape w).2 with
    | unquoted => rfl
    | single =>
      obtain ⟨hs, hw⟩ := (hsingle (unquote escape w).1).mp (Prod.ext rfl hstyle)
      exact absurd hw (hnotSingle _ hs)
    | double =>
      obtain ⟨body, hbody, hw⟩ := (hdouble (unquote escape w).1).mp (Prod.ext rfl hstyle)
      exact absurd hw (hnotDouble body _ hbody)

/-- An escape character that protects nothing, one that protects itself before the closing quote,
and a last quote that is protected. -/
theorem unquote_exact_protected :
    Quote.ofChar? '\\' = none ∧
      (∃ body, Enclosed '\\' body "\\a\\".toList ∧ "\"\\a\\\\\"".toList = '"' :: body ++ ['"']) ∧
      (∀ body v, Enclosed '\\' body v → "\"a\\\"".toList ≠ '"' :: body ++ ['"']) := by
  have he : Quote.ofChar? '\\' = none := by decide
  have hdouble : unquote '\\' "\"\\a\\\\\"".toList = ("\\a\\".toList, .double) := by decide
  have hunquoted : (unquote '\\' "\"a\\\"".toList).2 = .unquoted := by decide
  exact ⟨he, ((unquote_exact he _).2.1 _).mp hdouble, ((unquote_exact he _).2.2.mp hunquoted).2⟩

end Containerfile.Word
