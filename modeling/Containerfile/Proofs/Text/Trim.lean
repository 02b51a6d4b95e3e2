import Containerfile.Text.Basic
import Mathlib.Data.List.DropRight

/-! # Trimming and first words

A text is trimmed if no blank stands at either end.  Trimming yields such a text and changes
none. -/
namespace Containerfile.Text

/-- The visible characters of ASCII lie between the blanks. -/
theorem not_visible_of_isBlank {c : Char} (h : isBlank c = true) :
    c.toNat ≤ 32 ∨ 133 ≤ c.toNat := by
  simp only [isBlank, blankRanges, List.any_cons, List.any_nil, Bool.or_eq_true, Bool.or_false,
    decide_eq_true_eq, Char.le_def, UInt32.le_iff_toNat_le] at h
  simp at h
  omega

/-- A text with no blank at either end. -/
def Trimmed (t : Text) : Prop :=
  (∀ c ∈ t.head?, isBlank c = false) ∧ ∀ c ∈ t.getLast?, isBlank c = false

theorem dropEndWhile_eq_rdropWhile (p : Char → Bool) (t : Text) :
    dropEndWhile p t = t.rdropWhile p := rfl

theorem trimStart_eq_self {t : Text} (h : ∀ c ∈ t.head?, isBlank c = false) : trimStart t = t := by
  cases t with
  | nil => rfl
  | cons c t => exact List.dropWhile_cons_of_neg (by simp [h c rfl])

theorem trimEnd_eq_self {t : Text} (h : ∀ c ∈ t.getLast?, isBlank c = false) : trimEnd t = t := by
  rw [trimEnd, dropEndWhile_eq_rdropWhile, List.rdropWhile_eq_self_iff]
  intro hne
  simp [h _ (List.getLast?_eq_some_getLast hne)]

theorem trim_eq_self {t : Text} (h : Trimmed t) : t.trim = t := by
  rw [trim, trimStart_eq_self h.1, trimEnd_eq_self h.2]

theorem trimEnd_isPrefix (t : Text) : t.trimEnd <+: t := List.rdropWhile_prefix isBlank t

theorem trimStart_isSuffix (t : Text) : t.trimStart <:+ t := List.dropWhile_suffix isBlank

theorem trim_isInfix (t : Text) : t.trim <:+: t :=
  (trimEnd_isPrefix _).isInfix.trans (trimStart_isSuffix t).isInfix

theorem isBlank_getLast_trimEnd {t : Text} {c : Char} (h : c ∈ t.trimEnd.getLast?) :
    isBlank c = false := by
  have hne : t.rdropWhile isBlank ≠ [] := List.ne_nil_of_mem (List.mem_of_getLast? h)
  have hlast := List.rdropWhile_last_not isBlank t hne
  rw [trimEnd, dropEndWhile_eq_rdropWhile, List.getLast?_eq_some_getLast hne,
    Option.mem_some_iff] at h
  simpa [h] using hlast

theorem isBlank_head_trimStart {t : Text} {c : Char} (h : c ∈ t.trimStart.head?) :
    isBlank c = false := by
  have hn := List.head?_dropWhile_not isBlank t
  rw [trimStart] at h
  rw [Option.mem_def.mp h] at hn
  simpa using hn

theorem trimmed_trim (t : Text) : Trimmed t.trim := by
  refine ⟨?_, fun c hc => isBlank_getLast_trimEnd hc⟩
  intro c hc
  obtain ⟨u, hu⟩ := trimEnd_isPrefix t.trimStart
  apply isBlank_head_trimStart (t := t)
  rw [← hu, List.head?_append]
  rw [trim] at hc
  simp [Option.mem_def.mp hc]

theorem trimEnd_eq_nil_iff {t : Text} : t.trimEnd = [] ↔ ∀ c ∈ t, isBlank c = true := by
  rw [trimEnd, dropEndWhile_eq_rdropWhile, List.rdropWhile_eq_nil_iff]

theorem trimEnd_ne_nil {t : Text} (hne : t ≠ []) (h : ∀ c ∈ t.head?, isBlank c = false) :
    t.trimEnd ≠ [] := by
  obtain ⟨c, u, rfl⟩ := List.exists_cons_of_ne_nil hne
  intro hnil
  have hblank := trimEnd_eq_nil_iff.mp hnil c List.mem_cons_self
  rw [h c rfl] at hblank
  cases hblank

/-- Only blanks are trimmed to nothing. -/
theorem trim_eq_nil_iff {t : Text} : t.trim = [] ↔ ∀ c ∈ t, isBlank c = true := by
  rw [trim, trimEnd_eq_nil_iff]
  constructor
  · intro h c hc
    rw [← List.takeWhile_append_dropWhile (p := isBlank) (l := t)] at hc
    rcases List.mem_append.mp hc with hc | hc
    · exact List.mem_takeWhile_imp hc
    · exact h c hc
  · intro h c hc
    exact h c ((trimStart_isSuffix t).subset hc)

/-- What is trimmed is blank. -/
theorem mem_trim_iff {t : Text} {c : Char} (hc : isBlank c = false) : c ∈ t.trim ↔ c ∈ t := by
  have hdrop : ∀ u : Text, c ∈ u.dropWhile isBlank ↔ c ∈ u := by
    intro u
    refine ⟨fun h => List.dropWhile_subset _ h, fun h => ?_⟩
    rw [← List.takeWhile_append_dropWhile (p := isBlank) (l := u)] at h
    rcases List.mem_append.mp h with h | h
    · rw [List.mem_takeWhile_imp h] at hc
      cases hc
    · exact h
  rw [Text.trim, trimEnd, dropEndWhile, List.mem_reverse, hdrop, List.mem_reverse, trimStart, hdrop]

/-- What is trimmed are blanks around the text. -/
theorem exists_eq_trim (t : Text) : ∃ before after, t = before ++ t.trim ++ after ∧
    (∀ c ∈ before, isBlank c = true) ∧ ∀ c ∈ after, isBlank c = true := by
  refine ⟨t.takeWhile isBlank, t.trimStart.rtakeWhile isBlank, ?_, ?_, ?_⟩
  · rw [Text.trim, trimEnd, dropEndWhile_eq_rdropWhile, List.append_assoc,
      List.rdropWhile_append_rtakeWhile, trimStart, List.takeWhile_append_dropWhile]
  · exact fun c hc => List.mem_takeWhile_imp hc
  · exact fun c hc => List.mem_rtakeWhile_imp hc

/-- Blanks at the end of a text are trimmed. -/
theorem trimEnd_append_of_isBlank (t : Text) {after : Text} (h : ∀ c ∈ after, isBlank c = true) :
    trimEnd (t ++ after) = trimEnd t := by
  rw [trimEnd, trimEnd, dropEndWhile, dropEndWhile, List.reverse_append,
    List.dropWhile_append_of_pos fun c hc => h c (List.mem_reverse.mp hc)]

/-- Trimming stops at the first visible character from the end. -/
theorem trimEnd_append_of_visible (w : Text) {u : Text} (h : u.trimEnd ≠ []) :
    trimEnd (w ++ u) = w ++ trimEnd u := by
  rw [trimEnd, dropEndWhile, Ne, List.reverse_eq_nil_iff] at h
  rw [trimEnd, trimEnd, dropEndWhile, dropEndWhile, List.reverse_append, List.dropWhile_append,
    if_neg (by simpa using h), List.reverse_append, List.reverse_reverse]

/-- A text that is trimmed at its end alone is the trimmed text behind blanks. -/
theorem exists_trimEnd_eq {t : Text} (h : t.trim ≠ []) :
    ∃ before, t.trimEnd = before ++ t.trim ∧ ∀ c ∈ before, isBlank c = true := by
  refine ⟨t.takeWhile isBlank, ?_, fun c hc => List.mem_takeWhile_imp hc⟩
  conv_lhs => rw [← List.takeWhile_append_dropWhile (p := isBlank) (l := t)]
  exact trimEnd_append_of_visible _ h

theorem trimStart_trimEnd {t : Text} (h : ∀ c ∈ t.head?, isBlank c = false) :
    t.trimEnd.trimStart = t.trimEnd := by
  obtain ⟨u, hu⟩ := trimEnd_isPrefix t
  refine trimStart_eq_self fun c hc => h c ?_
  rw [← hu, List.head?_append]
  simp [Option.mem_def.mp hc]

/-- Blanks around a text are trimmed. -/
theorem trim_of_isBlank {t before after : Text} (hbefore : ∀ c ∈ before, isBlank c = true)
    (hafter : ∀ c ∈ after, isBlank c = true) : Text.trim (before ++ t ++ after) = t.trim := by
  rw [List.append_assoc, Text.trim, trimStart, List.dropWhile_append_of_pos hbefore,
    List.dropWhile_append]
  split
  · rename_i hnil
    have hblank : ∀ c ∈ t, isBlank c = true :=
      List.dropWhile_eq_nil_iff.mp (List.isEmpty_iff.mp hnil)
    rw [List.dropWhile_eq_nil_iff.mpr hafter, trim_eq_nil_iff.mpr hblank]
    rfl
  · exact trimEnd_append_of_isBlank _ hafter

/-- A blank at the end of a text is trimmed. -/
theorem trim_concat_of_isBlank {t : Text} {c : Char} (hc : isBlank c = true) :
    Text.trim (t ++ [c]) = t.trim := by
  have htrim : Text.trim ([] ++ t ++ [c]) = t.trim := trim_of_isBlank (by simp) (by simpa using hc)
  rwa [List.nil_append] at htrim

theorem trim_cons_of_isBlank {t : Text} {c : Char} (hc : isBlank c = true) :
    Text.trim (c :: t) = t.trim := by
  rw [Text.trim, trimStart, List.dropWhile_cons_of_pos hc]
  rfl

/-- Where blanks stand inside a text does not matter. -/
theorem trimmed_append {w t u : Text} (hw : w ≠ []) (hu : u ≠ [])
    (hhead : ∀ c ∈ w.head?, isBlank c = false) (hlast : ∀ c ∈ u.getLast?, isBlank c = false) :
    Trimmed (w ++ t ++ u) := by
  constructor
  · intro c hc
    obtain ⟨d, v, rfl⟩ := List.exists_cons_of_ne_nil hw
    exact hhead c hc
  · intro c hc
    rw [List.getLast?_append_of_ne_nil _ hu] at hc
    exact hlast c hc

/-- The first word and what follows it are made of the characters of the text. -/
theorem firstWord_subset (t : Text) : (firstWord t).1 ⊆ t ∧ (firstWord t).2 ⊆ t := by
  have htrim : t.trim ⊆ t := (trim_isInfix t).subset
  constructor
  · exact List.Subset.trans (List.takeWhile_subset _) htrim
  · have hrest : (firstWord t).2 ⊆ t.trim :=
      List.Subset.trans (trimStart_isSuffix _).subset (List.dropWhile_subset _)
    exact List.Subset.trans hrest htrim

/-- No blank is in the first word. -/
theorem firstWord_fst_blankless (t : Text) : ∀ c ∈ (firstWord t).1, isBlank c = false := by
  intro c hc
  have hvisible : (!isBlank c) = true := List.mem_takeWhile_imp (p := (!isBlank ·)) hc
  rwa [Bool.not_eq_true'] at hvisible

/-- What follows the first word is trimmed. -/
theorem trimmed_firstWord_snd (t : Text) : Trimmed (firstWord t).2 := by
  refine ⟨fun c hc => isBlank_head_trimStart hc, fun c hc => (trimmed_trim t).2 c ?_⟩
  obtain ⟨w, hw⟩ : (firstWord t).2 <:+ t.trim :=
    (trimStart_isSuffix _).trans (List.dropWhile_suffix _)
  rw [← hw, List.getLast?_append_of_ne_nil _ (List.ne_nil_of_mem (List.mem_of_getLast? hc))]
  exact hc

/-! ## First words -/

/-- What follows the first blanks of a text. -/
def afterBlank (t : Text) : Text := trimStart (t.dropWhile (!isBlank ·))

section FirstWord

variable {t k u : Text}

/-- A text up to its last visible character: a word, and the gap and the text after it, if there is
one. -/
theorem exists_trim_eq (ht : t.trimStart = k ++ u) (hu : ∀ c ∈ u.head?, isBlank c = true) :
    ∃ z, t.trim = k.trimEnd ++ z ∧ u.trimEnd <:+ z ∧
      ((u.trim = [] ∧ z = []) ∨
        ∃ gap, gap ≠ [] ∧ (∀ c ∈ gap, isBlank c = true) ∧ z = gap ++ u.trim ∧ u.trim ≠ []) := by
  rw [Text.trim, ht]
  by_cases hnil : u.trim = []
  · have hblank : ∀ c ∈ u, isBlank c = true := trim_eq_nil_iff.mp hnil
    refine ⟨[], ?_, ?_, .inl ⟨hnil, rfl⟩⟩
    · rw [trimEnd_append_of_isBlank k hblank, List.append_nil]
    · simp [trimEnd_eq_nil_iff.mpr hblank]
  · obtain ⟨tail, htail, hblanks⟩ : ∃ tail, k.trimEnd ++ tail = k ∧ ∀ c ∈ tail, isBlank c = true :=
      ⟨k.rtakeWhile isBlank, List.rdropWhile_append_rtakeWhile,
        fun c hc => List.mem_rtakeWhile_imp hc⟩
    obtain ⟨before, hend, hbefore⟩ := exists_trimEnd_eq hnil
    have hvisible : u.trimEnd ≠ [] := by simp [hend, hnil]
    refine ⟨tail ++ u.trimEnd, ?_, ⟨tail, rfl⟩, .inr ⟨tail ++ before, ?_, ?_, ?_, hnil⟩⟩
    · rw [trimEnd_append_of_visible k hvisible, ← List.append_assoc, htail]
    · -- the text after the word begins with a blank, so there is a gap
      intro hgap
      obtain ⟨-, rfl⟩ := List.append_eq_nil_iff.mp hgap
      obtain ⟨c, v, hv⟩ := List.exists_cons_of_ne_nil hnil
      obtain ⟨after, hafter⟩ := trimEnd_isPrefix u
      have hblank := hu c (by rw [← hafter, hend, List.nil_append, hv]; rfl)
      rw [(trimmed_trim u).1 c (by rw [hv]; rfl)] at hblank
      cases hblank
    · intro c hc
      rcases List.mem_append.mp hc with hc | hc
      · exact hblanks c hc
      · exact hbefore c hc
    · rw [hend, List.append_assoc]

/-- **The first word of a text and what follows it**, where no blank is inside the word. -/
theorem firstWord_of_blankless (ht : t.trimStart = k ++ u) (hu : ∀ c ∈ u.head?, isBlank c = true)
    (hk : ∀ c ∈ k.trimEnd, isBlank c = false) : firstWord t = (k.trimEnd, u.trim) := by
  obtain ⟨z, htrim, -, hz⟩ := exists_trim_eq ht hu
  have hword : ∀ c ∈ k.trimEnd, (!isBlank c) = true := fun c hc => by simp [hk c hc]
  rw [firstWord, htrim, List.takeWhile_append_of_pos hword, List.dropWhile_append_of_pos hword]
  rcases hz with ⟨hnil, rfl⟩ | ⟨gap, hne, hgap, rfl, -⟩
  · rw [hnil, List.takeWhile_nil, List.append_nil]
    rfl
  · obtain ⟨c, gap, rfl⟩ := List.exists_cons_of_ne_nil hne
    have hc : ¬ (!isBlank c) = true := by simp [hgap c List.mem_cons_self]
    rw [List.cons_append, List.takeWhile_cons_of_neg (p := (!isBlank ·)) hc,
      List.dropWhile_cons_of_neg (p := (!isBlank ·)) hc, List.append_nil, ← List.cons_append,
      trimStart, List.dropWhile_append_of_pos hgap, ← trimStart,
      trimStart_eq_self (trimmed_trim u).1]

/-- Nothing follows a text without blanks. -/
theorem firstWord_snd_of_blankless (ht : Trimmed t) (h : ∀ c ∈ t, isBlank c = false) :
    (firstWord t).2 = [] := by
  have hstart : t.trimStart = t ++ [] := by rw [List.append_nil, trimStart_eq_self ht.1]
  rw [firstWord_of_blankless hstart (by simp) (by rwa [trimEnd_eq_self ht.2])]
  rfl

/-- A word with a blank goes on behind it: its last character is visible. -/
theorem afterBlank_trimEnd_ne_nil (hk : ∃ c ∈ k.trimEnd, isBlank c = true) :
    k.trimEnd.dropWhile (!isBlank ·) ≠ [] ∧ afterBlank k.trimEnd ≠ [] := by
  obtain ⟨c, hc, hblank⟩ := hk
  have hdrop : k.trimEnd.dropWhile (!isBlank ·) ≠ [] := by
    rw [Ne, List.dropWhile_eq_nil_iff]
    intro hall
    have hvisible := hall c hc
    rw [hblank] at hvisible
    cases hvisible
  refine ⟨hdrop, ?_⟩
  rw [afterBlank, trimStart, Ne, List.dropWhile_eq_nil_iff]
  intro hall
  obtain ⟨d, hd⟩ := Option.isSome_iff_exists.mp (List.getLast?_isSome.mpr hdrop)
  have hlast : d ∈ k.trimEnd.getLast? := by
    obtain ⟨w, hw⟩ : k.trimEnd.dropWhile (!isBlank ·) <:+ k.trimEnd := List.dropWhile_suffix _
    rw [← hw, List.getLast?_append_of_ne_nil _ hdrop]
    exact hd
  have hvisible := isBlank_getLast_trimEnd hlast
  rw [hall d (List.mem_of_getLast? hd)] at hvisible
  cases hvisible

/-- **What follows the first blanks** where these are inside the word: the rest of the word
first. -/
theorem firstWord_of_blank (ht : t.trimStart = k ++ u) (hu : ∀ c ∈ u.head?, isBlank c = true)
    (hk : ∃ c ∈ k.trimEnd, isBlank c = true) :
    ∃ z, (firstWord t).2 = afterBlank k.trimEnd ++ z ∧ afterBlank k.trimEnd ≠ [] ∧ u.trimEnd <:+ z ∧
      ((u.trim = [] ∧ z = []) ∨
        ∃ gap, gap ≠ [] ∧ (∀ c ∈ gap, isBlank c = true) ∧ z = gap ++ u.trim ∧ u.trim ≠ []) := by
  obtain ⟨z, htrim, hend, hz⟩ := exists_trim_eq ht hu
  obtain ⟨hdrop, hinside⟩ := afterBlank_trimEnd_ne_nil hk
  refine ⟨z, ?_, hinside, hend, hz⟩
  rw [afterBlank, trimStart] at hinside
  rw [firstWord, htrim, afterBlank, List.dropWhile_append, if_neg (by simpa using hdrop), trimStart,
    List.dropWhile_append, if_neg (by simpa using hinside), trimStart]

theorem firstWord_trim (t : Text) : firstWord t.trim = firstWord t := by
  rw [firstWord, trim_eq_self (trimmed_trim t), ← firstWord]

/-- The first word of a text and what follows the blank behind it. -/
theorem firstWord_append_blank {w args : Text} (hne : w ≠ []) (hw : ∀ c ∈ w, isBlank c = false) :
    firstWord (w ++ ' ' :: args) = (w, args.trim) := by
  have hstart : trimStart (w ++ ' ' :: args) = w ++ ' ' :: args := by
    obtain ⟨c, v, rfl⟩ := List.exists_cons_of_ne_nil hne
    exact trimStart_eq_self fun d hd => hw d (List.mem_of_mem_head? (by simpa using hd))
  have hend : w.trimEnd = w := trimEnd_eq_self fun c hc => hw c (List.mem_of_mem_getLast? hc)
  have hblank : ∀ c ∈ List.head? (' ' :: args), isBlank c = true := by
    rintro c ⟨⟩
    decide
  rw [firstWord_of_blankless hstart hblank (by rwa [hend]), hend, trim_cons_of_isBlank (by decide)]

end FirstWord

end Containerfile.Text
