import Containerfile.Word.Unquote

/-! # What removing quotes leaves alone

Unquoting only ever deletes: the value of a word has at most the characters of the word
(`Word.length_valueFrom_le`) and all of its blanks (`Word.countP_valueFrom`), and a quote that opens
or closes, or an escape character that protects, costs one.  So a text is its own value exactly if
there is nothing in it to delete (`Word.value_eq_self_iff`), and it is the value of itself in double
quotes exactly if the quotes around it are the only ones that go (`Word.value_doubleQuotes_eq_iff`).

What is before a place in a word decides only what the place stands in, or protects the next
character (`Word.valueFrom_append`), so something of the end of a word stays
(`Word.valueFrom_concat`, `Word.valueFrom_concat_escape`). -/
namespace Containerfile.Word

/-- A text that means itself as a word: it has no quotes, and no escape character before its end. -/
def Plain (escape : Char) (t : Text) : Prop :=
  (∀ c ∈ t, Quote.ofChar? c = none) ∧ escape ∉ t.dropLast

/-- A text that means itself between double quotes: it has no double quote, and no escape character
in it stands before a character that can be protected there, the closing quote included. -/
def PlainInQuotes (escape : Char) (t : Text) : Prop :=
  '"' ∉ t ∧ ∀ c, protects escape c = true → ¬ [escape, c] <:+: t ++ ['"']

@[simp] theorem ofChar?_double : Quote.ofChar? '"' = some .double := by decide

/-- **Unquoting deletes.** -/
theorem length_valueFrom_le (escape : Char) (q : Option Quote) (t : Text) :
    (valueFrom escape q t).length ≤ t.length := by
  fun_induction valueFrom escape q t <;> simp_all <;> omega

/-- Quotes are told by their characters. -/
theorem ofChar?_eq_some_iff {c : Char} {q : Quote} : Quote.ofChar? c = some q ↔ c = q.char := by
  rw [Quote.ofChar?]
  split
  · rename_i hc
    cases q <;> simp [hc, Quote.char]
  · rename_i hc
    split
    · rename_i hd
      cases q <;> simp [hd, Quote.char]
    · rename_i hd
      cases q <;> simp [hc, hd, Quote.char]

theorem isBlank_of_ofChar? {c : Char} {q : Quote} (h : Quote.ofChar? c = some q) :
    isBlank c = false := by
  rw [ofChar?_eq_some_iff.mp h]
  cases q <;> decide

/-- What is deleted is no blank. -/
theorem countP_valueFrom {escape : Char} (he : isBlank escape = false) (q : Option Quote)
    (t : Text) :
    (valueFrom escape q t).countP isBlank = t.countP isBlank := by
  have hsingle : isBlank '\'' = false := by decide
  have hdouble : isBlank '"' = false := by decide
  have hquote : ∀ c : Char, (Quote.ofChar? c).isSome = true → isBlank c = false := by
    intro c hc
    obtain ⟨r, hr⟩ := Option.isSome_iff_exists.mp hc
    exact isBlank_of_ofChar? hr
  fun_induction valueFrom escape q t with
  | case12 c d t hc r hr ih => simp [ih, List.countP_cons, isBlank_of_ofChar? hr]
  | _ => simp_all [List.countP_cons]

/-- Quotes and escape characters aside, nothing is deleted. -/
theorem mem_valueFrom {escape c : Char} {q : Option Quote} {t : Text} (hc : c ∈ t) (he : c ≠ escape)
    (hq : Quote.ofChar? c = none) : c ∈ valueFrom escape q t := by
  have hsingle : c ≠ '\'' := by
    rintro rfl
    cases hq
  have hdouble : c ≠ '"' := by
    rintro rfl
    cases hq
  fun_induction valueFrom escape q t <;> simp_all <;> grind

/-- A text whose value is blank has no visible characters but quotes and escape characters. -/
theorem not_mem_of_isBlank_value {escape c : Char} {t : Text}
    (h : ∀ d ∈ value escape t, isBlank d = true) (hc : isBlank c = false) (he : c ≠ escape)
    (hq : Quote.ofChar? c = none) : c ∉ t := by
  intro hmem
  have hblank := h c (mem_valueFrom hmem he hq)
  rw [hc] at hblank
  cases hblank

/-- A character of a word is deleted or kept, or it protects the next one. -/
theorem valueFrom_cons_cons (escape : Char) (q : Option Quote) (c d : Char) :
    (∃ x q', ∀ t, valueFrom escape q (c :: d :: t) = x ++ valueFrom escape q' (d :: t)) ∨
      ∃ q', ∀ t, valueFrom escape q (c :: d :: t) = d :: valueFrom escape q' t := by
  cases q with
  | none =>
    by_cases he : c = escape
    · exact .inr ⟨none, fun t => by rw [valueFrom, if_pos he]⟩
    · cases hq : Quote.ofChar? c with
      | some q => exact .inl ⟨[], some q, fun t => by rw [valueFrom, if_neg he, hq]; rfl⟩
      | none => exact .inl ⟨[c], none, fun t => by rw [valueFrom, if_neg he, hq]; rfl⟩
  | some q =>
    cases q with
    | single =>
      by_cases hc : c = '\''
      · exact .inl ⟨[], none, fun t => by rw [valueFrom, if_pos hc]; rfl⟩
      · exact .inl ⟨[c], some .single, fun t => by rw [valueFrom, if_neg hc]; rfl⟩
    | double =>
      by_cases he : c = escape ∧ protects escape d
      · exact .inr ⟨some .double, fun t => by rw [valueFrom, if_pos he]⟩
      · by_cases hc : c = '"'
        · exact .inl ⟨[], none, fun t => by rw [valueFrom, if_neg he, if_pos hc]; rfl⟩
        · exact .inl ⟨[c], some .double, fun t => by rw [valueFrom, if_neg he, if_neg hc]; rfl⟩

/-- **The end of a word** is unquoted as in a word of its own, or its first character is protected
by what is before it. -/
theorem valueFrom_append (escape : Char) (q : Option Quote) : ∀ (t : Text) {u : Text}, u ≠ [] →
    ∃ x q', valueFrom escape q (t ++ u) = x ++ valueFrom escape q' u ∨
      ∃ c v, u = c :: v ∧ valueFrom escape q (t ++ u) = x ++ c :: valueFrom escape q' v
  | [], u, _ => ⟨[], q, .inl rfl⟩
  | [c], u, hu => by
    obtain ⟨d, v, rfl⟩ := List.exists_cons_of_ne_nil hu
    rcases valueFrom_cons_cons escape q c d with ⟨x, q', h⟩ | ⟨q', h⟩
    · exact ⟨x, q', .inl (h v)⟩
    · exact ⟨[], q', .inr ⟨d, v, rfl, h v⟩⟩
  | c :: d :: t, u, hu => by
    rcases valueFrom_cons_cons escape q c d with ⟨y, q', h⟩ | ⟨q', h⟩
    · obtain ⟨x, q'', hx⟩ := valueFrom_append escape q' (d :: t) hu
      refine ⟨y ++ x, q'', ?_⟩
      simp only [List.cons_append, h, List.append_assoc] at hx ⊢
      exact hx.imp (congrArg (y ++ ·)) fun ⟨c', v, hv, hx⟩ => ⟨c', v, hv, congrArg (y ++ ·) hx⟩
    · obtain ⟨x, q'', hx⟩ := valueFrom_append escape q' t hu
      refine ⟨d :: x, q'', ?_⟩
      simp only [List.cons_append, h]
      exact hx.imp (congrArg (d :: ·)) fun ⟨c', v, hv, hx⟩ => ⟨c', v, hv, congrArg (d :: ·) hx⟩

theorem valueFrom_singleton {escape c : Char} (hc : Quote.ofChar? c = none) (q : Option Quote) :
    valueFrom escape q [c] = [c] := by
  have hsingle : c ≠ '\'' := by
    rintro rfl
    cases hc
  have hdouble : c ≠ '"' := by
    rintro rfl
    cases hc
  rcases q with _ | _ | _ <;> simp [valueFrom, hc, hsingle, hdouble]

/-- A character at the end of a word that is no quote stays at the end. -/
theorem valueFrom_concat {escape c : Char} (hc : Quote.ofChar? c = none) (q : Option Quote)
    (t : Text) :
    ∃ x, valueFrom escape q (t ++ [c]) = x ++ [c] := by
  obtain ⟨x, q', h | ⟨d, v, hv, h⟩⟩ := valueFrom_append escape q t (List.cons_ne_nil c [])
  · exact ⟨x, by rw [h, valueFrom_singleton hc]⟩
  · cases hv
    exact ⟨x, by rw [h, valueFrom]⟩

/-- A last character that is deleted closes quotes. -/
theorem valueFrom_singleton_cases (escape : Char) (q : Option Quote) (c : Char) :
    valueFrom escape q [c] = [] ∨ valueFrom escape q [c] = [c] := by
  rcases q with _ | _ | _ <;> rw [valueFrom] <;> split <;> simp [valueFrom]

/-- Of an escape character and the last character of a word behind it, one stays at the end. -/
theorem valueFrom_pair {escape : Char} (he : Quote.ofChar? escape = none) (q : Option Quote)
    (c : Char) :
    ∃ x d, valueFrom escape q [escape, c] = x ++ [d] ∧ (d = escape ∨ d = c) := by
  have hsingle : escape ≠ '\'' := by
    rintro rfl
    cases he
  have hdouble : escape ≠ '"' := by
    rintro rfl
    cases he
  rcases q with _ | _ | _
  · exact ⟨[], c, by simp [valueFrom], .inr rfl⟩
  · rcases valueFrom_singleton_cases escape (some .single) c with hc | hc
    · exact ⟨[], escape, by rw [valueFrom, if_neg hsingle, hc]; rfl, .inl rfl⟩
    · exact ⟨[escape], c, by rw [valueFrom, if_neg hsingle, hc]; rfl, .inr rfl⟩
  · by_cases hp : protects escape c = true
    · exact ⟨[], c, by simp [valueFrom, hp], .inr rfl⟩
    · have hc : c ≠ '"' := by
        rintro rfl
        exact hp rfl
      exact ⟨[escape], c, by simp [valueFrom, hp, hdouble, hc], .inr rfl⟩

theorem valueFrom_concat_escape {escape : Char} (he : Quote.ofChar? escape = none) (c : Char)
    (q : Option Quote) (t : Text) :
    ∃ x d, valueFrom escape q (t ++ [escape, c]) = x ++ [d] ∧ (d = escape ∨ d = c) := by
  obtain ⟨x, q', h | ⟨d, v, hv, h⟩⟩ := valueFrom_append escape q t (List.cons_ne_nil escape [c])
  · obtain ⟨y, d, hy, hd⟩ := valueFrom_pair he q' c
    exact ⟨x ++ y, d, by rw [h, hy, List.append_assoc], hd⟩
  · cases hv
    -- the escape character is protected itself, so it stays
    rcases valueFrom_singleton_cases escape q' c with hc | hc
    · exact ⟨x, escape, by rw [h, hc], .inl rfl⟩
    · exact ⟨x ++ [escape], c, by rw [h, hc]; simp, .inr rfl⟩

/-- A word that begins with no quote is not empty when it is unquoted. -/
theorem value_cons_ne_nil {escape c : Char} (hc : Quote.ofChar? c = none) (t : Text) :
    value escape (c :: t) ≠ [] := by
  cases t with
  | nil => simp [value, valueFrom, hc]
  | cons d t =>
    rw [value, valueFrom]
    split <;> simp [hc]

/-! ## Outside quotes -/

theorem plain_nil (escape : Char) : Plain escape [] := ⟨by simp, by simp⟩

theorem plain_cons_iff {escape c d : Char} {t : Text} :
    Plain escape (c :: d :: t) ↔
      c ≠ escape ∧ Quote.ofChar? c = none ∧ Plain escape (d :: t) := by
  rw [Plain, Plain, List.dropLast_cons_cons, List.forall_mem_cons, List.mem_cons, not_or]
  constructor
  · rintro ⟨⟨hc, hq⟩, he, hr⟩
    exact ⟨Ne.symm he, hc, hq, hr⟩
  · rintro ⟨he, hc, hq, hr⟩
    exact ⟨⟨hc, hq⟩, Ne.symm he, hr⟩

/-- A word that loses no character has none to lose. -/
theorem plain_of_length {escape : Char} {t : Text}
    (h : (value escape t).length = t.length) : Plain escape t := by
  induction t with
  | nil => exact plain_nil escape
  | cons c t ih =>
    cases t with
    | nil =>
      refine ⟨?_, by simp⟩
      intro a ha
      rw [List.mem_singleton.mp ha]
      cases hq : Quote.ofChar? c with
      | none => rfl
      | some q => simp [value, valueFrom, hq] at h
    | cons d t =>
      simp only [value, valueFrom] at h ih
      by_cases he : c = escape
      · have hle := length_valueFrom_le escape none t
        rw [if_pos he] at h
        simp only [List.length_cons] at h
        omega
      · rw [if_neg he] at h
        cases hq : Quote.ofChar? c with
        | some q =>
          have hle := length_valueFrom_le escape (some q) (d :: t)
          rw [hq] at h
          simp only [List.length_cons] at h hle
          omega
        | none =>
          rw [hq] at h
          simp only [List.length_cons, Nat.add_right_cancel_iff] at h
          exact plain_cons_iff.mpr ⟨he, hq, ih (by simpa using h)⟩

theorem value_of_plain {escape : Char} {t : Text} (h : Plain escape t) : value escape t = t := by
  induction t with
  | nil => rfl
  | cons c t ih =>
    cases t with
    | nil => simp [value, valueFrom, h.1 c (by simp)]
    | cons d t =>
      obtain ⟨he, hq, ht⟩ := plain_cons_iff.mp h
      have hrest : valueFrom escape none (d :: t) = d :: t := ih ht
      simp [value, valueFrom, he, hq, hrest]

/-- **A text is its own value as a word exactly if it is plain.** -/
theorem value_eq_self_iff {escape : Char} {t : Text} : value escape t = t ↔ Plain escape t :=
  ⟨fun h => plain_of_length (by rw [h]), value_of_plain⟩

/-! ## Between double quotes -/

/-- The double quote at the end of a word goes, or else an escape character before it does. -/
theorem length_valueFrom_closing (escape : Char) : ∀ t : Text,
    (valueFrom escape none (t ++ ['"'])).length ≤ t.length ∧
      (valueFrom escape (some .double) (t ++ ['"'])).length ≤ t.length
  | [] => by simp [valueFrom]
  | [c] => by
    constructor
    · simp only [List.singleton_append, valueFrom]
      split
      · simp
      · split
        · rename_i q _
          cases q <;> simp [valueFrom]
        · simp
    · simp only [List.singleton_append, valueFrom]
      split
      · simp
      · split <;> simp
  | c :: d :: t => by
    obtain ⟨ihn, ihq⟩ := length_valueFrom_closing escape t
    obtain ⟨ihn', ihq'⟩ := length_valueFrom_closing escape (d :: t)
    simp only [List.cons_append, List.length_cons] at ihn' ihq' ⊢
    constructor
    · rw [valueFrom]
      split
      · simp only [List.length_cons]
        omega
      · split
        · rename_i q _
          have hle := length_valueFrom_le escape (some q) (d :: (t ++ ['"']))
          simpa using hle
        · simp only [List.length_cons]
          omega
    · rw [valueFrom]
      split
      · simp only [List.length_cons]
        omega
      · split
        · omega
        · simp only [List.length_cons]
          omega

theorem plainInQuotes_nil (escape : Char) : PlainInQuotes escape [] := by
  refine ⟨by simp, ?_⟩
  intro c _ hi
  exact absurd hi.length_le (by simp)

theorem plainInQuotes_cons_iff {escape c d : Char} {t u : Text} (hu : t ++ ['"'] = d :: u) :
    PlainInQuotes escape (c :: t) ↔
      c ≠ '"' ∧ ¬ (c = escape ∧ protects escape d = true) ∧ PlainInQuotes escape t := by
  have hin : ∀ a : Char, [escape, a] <:+: (c :: t) ++ ['"'] ↔
      (escape = c ∧ a = d) ∨ [escape, a] <:+: t ++ ['"'] := by
    intro a
    rw [List.cons_append, List.infix_cons_iff, hu, List.cons_prefix_cons, List.cons_prefix_cons]
    simp
  rw [PlainInQuotes, PlainInQuotes, List.mem_cons, not_or]
  constructor
  · rintro ⟨⟨hc, hq⟩, hi⟩
    refine ⟨Ne.symm hc, ?_, hq, ?_⟩
    · rintro ⟨rfl, hp⟩
      exact hi d hp ((hin d).mpr (Or.inl ⟨rfl, rfl⟩))
    · intro a ha h
      exact hi a ha ((hin a).mpr (Or.inr h))
  · rintro ⟨hc, hp, hq, hi⟩
    refine ⟨⟨Ne.symm hc, hq⟩, ?_⟩
    intro a ha h
    rcases (hin a).mp h with ⟨rfl, rfl⟩ | h
    · exact hp ⟨rfl, ha⟩
    · exact hi a ha h

theorem valueFrom_closing_eq_iff {escape : Char} (he : escape ≠ '"') {t : Text} :
    valueFrom escape (some .double) (t ++ ['"']) = t ↔ PlainInQuotes escape t := by
  induction t with
  | nil => simp [valueFrom, plainInQuotes_nil]
  | cons c t ih =>
    obtain ⟨d, u, hu⟩ : ∃ d u, t ++ ['"'] = d :: u := List.exists_cons_of_ne_nil (by simp)
    rw [plainInQuotes_cons_iff hu, List.cons_append, hu, valueFrom]
    by_cases hp : c = escape ∧ protects escape d = true
    · rw [if_pos hp]
      refine ⟨?_, fun h => absurd hp h.2.1⟩
      intro h
      obtain ⟨hdc, hrest⟩ := List.cons.inj h
      -- what is protected is an escape character as well, and it is a closing quote short
      cases t with
      | nil =>
        have hd : d = '"' := (List.cons.inj hu).1.symm
        exact absurd (by rw [← hp.1, ← hdc, hd]) he
      | cons a t =>
        have hle := (length_valueFrom_closing escape t).2
        rw [List.cons_append, List.cons.injEq] at hu
        rw [hu.2, hrest, List.length_cons] at hle
        omega
    · rw [if_neg hp]
      by_cases hc : c = '"'
      · rw [if_pos hc]
        refine ⟨?_, fun h => absurd hc h.1⟩
        intro h
        have hle := (length_valueFrom_closing escape t).1
        rw [hu, h, List.length_cons] at hle
        omega
      · rw [if_neg hc, ← hu, List.cons.injEq, ih]
        exact ⟨fun h => ⟨hc, hp, h.2⟩, fun h => ⟨rfl, h.2.2⟩⟩

/-- **A text is the value of itself in double quotes exactly if it is plain in them.** -/
theorem value_doubleQuotes_eq_iff {escape : Char} (he : escape ≠ '"') {t : Text} :
    value escape ('"' :: t ++ ['"']) = t ↔ PlainInQuotes escape t := by
  obtain ⟨d, u, hu⟩ : ∃ d u, t ++ ['"'] = d :: u := List.exists_cons_of_ne_nil (by simp)
  rw [← valueFrom_closing_eq_iff he, value, List.cons_append, hu, valueFrom, if_neg (Ne.symm he),
    ofChar?_double]

end Containerfile.Word
