import Containerfile.Instruction.Printer
import Containerfile.Proofs.Json.Arrays
import Containerfile.Proofs.Text.Lines
import Containerfile.Proofs.Text.Trim
import Containerfile.Statement

/-! # Arrays that are printed and read

An array is printed with a space after each comma between two quotes.  Quotes in a string are
escaped, but two things between the quotes of strings look the same as what is between two strings:
a string that is a comma, and the end `",` of a string, whose quote comes after a backslash.  A
string that is caught in this way gets a space at its end (`spacedItems`), and its quote is used up:
it does not count for what comes next.  So an array is read back as it was exactly if none of its
strings is caught, and only the first of them can be caught for being a comma
(`readExecForm_execText_iff`).

The spaces are the program's own, and the rest is any `ArrayFormat`
(`ArrayFormat.read_spaceCommas`). -/
namespace Containerfile

variable {c d : Char} {item t u w : Text} {items : List Text}

/-! ## Spaces after commas -/

theorem spaceCommas_cons (h : ¬ ['"', ',', '"'] <+: c :: t) :
    spaceCommas (c :: t) = c :: spaceCommas t := by
  rw [spaceCommas]
  rintro u rfl rfl
  exact h ⟨u, rfl⟩

theorem spaceCommas_cons_of_ne (h : c ≠ '"') : spaceCommas (c :: t) = c :: spaceCommas t :=
  spaceCommas_cons fun hp => h (List.cons_prefix_cons.mp hp).1.symm

theorem spaceCommas_append (hw : '"' ∉ w) : spaceCommas (w ++ t) = w ++ spaceCommas t := by
  induction w with
  | nil => rfl
  | cons c w ih =>
    rw [List.mem_cons, not_or] at hw
    rw [List.cons_append, spaceCommas_cons_of_ne (Ne.symm hw.1), ih hw.2]
    rfl

/-! ## Strings that are caught -/

/-- Whether a string looks like what is between two others: it is a comma after a quote that is
still free, or it ends with a quote and a comma. -/
def caught (free : Bool) (item : Text) : Bool :=
  decide (free = true ∧ item = [','] ∨ ['"', ','] <:+ item)

/-- A string as it is read back after a quote that is free or used up. -/
def spacedItem (free : Bool) (item : Text) : Text :=
  if caught free item then item ++ [' '] else item

/-- The strings of an array as they are read back.  The quote before the first of them is free or
used up; the quote before any other is free if the string before it is caught. -/
def spacedItems : Bool → List Text → List Text
  | _, [] => []
  | free, item :: items => spacedItem free item :: spacedItems (caught free item) items

/-- **Strings are read back as they are if none of them is caught.** -/
theorem spacedItems_eq_self_iff (free : Bool) (items : List Text) :
    spacedItems free items = items ↔
      (free = true → items.head? ≠ some [',']) ∧ ∀ item ∈ items, ¬ ['"', ','] <:+ item := by
  induction items generalizing free with
  | nil => simp [spacedItems]
  | cons item items ih =>
    rw [spacedItems, List.cons_eq_cons, spacedItem, List.head?_cons, List.forall_mem_cons]
    cases hcaught : caught free item with
    | true =>
      have hne : item ++ [' '] ≠ item := by simp
      rw [if_pos rfl]
      simp only [hne, false_and, false_iff]
      rintro ⟨hcomma, hend, -⟩
      rcases of_decide_eq_true hcaught with ⟨hfree, hitem⟩ | hitem
      · exact hcomma hfree (congrArg some hitem)
      · exact hend hitem
    | false =>
      obtain ⟨hcomma, hend⟩ := not_or.mp (of_decide_eq_false hcaught)
      have hhead : free = true → some item ≠ some [','] :=
        fun hfree hitem => hcomma ⟨hfree, Option.some.inj hitem⟩
      rw [if_neg Bool.false_ne_true, ih]
      constructor
      · rintro ⟨-, -, hrest⟩
        exact ⟨hhead, hend, hrest⟩
      · rintro ⟨-, -, hrest⟩
        exact ⟨rfl, fun h => absurd h Bool.false_ne_true, hrest⟩

/-- The strings of an array behind its first one as they are read back, each with the number of
blanks before it: a comma gets a blank if the quote before it is used up. -/
def spacedPairs : Bool → List Text → List (Nat × Text)
  | _, [] => []
  | free, item :: items =>
    (if free then 0 else 1, spacedItem free item) :: spacedPairs (caught free item) items

theorem map_snd_spacedPairs (free : Bool) (items : List Text) :
    (spacedPairs free items).map Prod.snd = spacedItems free items := by
  induction items generalizing free with
  | nil => rfl
  | cons item items ih => rw [spacedPairs, spacedItems, List.map_cons, ih]

/-! ## The text of an array -/

namespace StringFormat

variable (F : StringFormat)

/-- Only a character that stands as it is can be taken for one that is no backslash. -/
theorem cons_prefix_escape (hd : d ≠ '\\') :
    d :: u <+: F.escape c ++ w ↔ c = d ∧ F.escape d = [d] ∧ u <+: w := by
  rcases F.escape_cases c with hc | ⟨v, hc⟩
  · rw [hc, List.singleton_append, List.cons_prefix_cons]
    constructor
    · rintro ⟨rfl, hu⟩
      exact ⟨rfl, hc, hu⟩
    · rintro ⟨rfl, -, hu⟩
      exact ⟨rfl, hu⟩
  · have hplain : ¬ (c = d ∧ F.escape d = [d] ∧ u <+: w) := by
      rintro ⟨rfl, hplain, -⟩
      rw [hc] at hplain
      exact hd (List.cons.inj hplain).1.symm
    simp [hc, hd, hplain]

/-- A quote in a string has a backslash before it. -/
theorem quote_prefix_iff (t w : Text) : ['"'] <+: F.escaped t ++ '"' :: w ↔ t = [] := by
  cases t with
  | nil => simp
  | cons c t =>
    rw [escaped_cons, List.append_assoc, F.cons_prefix_escape (by decide), F.escape_quote]
    simp

/-- Only the string that is a comma looks like one between two quotes. -/
theorem comma_prefix_iff (t w : Text) : [',', '"'] <+: F.escaped t ++ '"' :: w ↔ t = [','] := by
  cases t with
  | nil => simp
  | cons c t =>
    rw [escaped_cons, List.append_assoc, F.cons_prefix_escape (by decide), F.quote_prefix_iff,
      List.cons_eq_cons]
    simp [F.escape_comma]

/-- A comma and a blank, which stand in a string as they are. -/
theorem escaped_comma_blank : F.escaped [',', ' '] = [',', ' '] := by
  simp [F.escape_comma, F.escape_blank]

/-- A quote in front of a string, and the string. -/
theorem spaceCommas_quote (t w : Text) :
    spaceCommas ('"' :: F.escaped t ++ '"' :: w) =
      if t = [','] then '"' :: F.escaped [',', ' '] ++ '"' :: spaceCommas w
      else '"' :: spaceCommas (F.escaped t ++ '"' :: w) := by
  split
  · rename_i ht
    have hcomma : F.escaped [','] = [','] := by simp [F.escape_comma]
    rw [ht, hcomma, F.escaped_comma_blank]
    rfl
  · rename_i ht
    rw [List.cons_append, spaceCommas_cons]
    intro hp
    exact ht ((F.comma_prefix_iff t w).mp (List.cons_prefix_cons.mp hp).2)

/-- A string and the quote after it, which is used up if the string ends with a quote and a
comma. -/
theorem spaceCommas_escaped (t w : Text) :
    spaceCommas (F.escaped t ++ '"' :: w) =
      if ['"', ','] <:+ t then F.escaped (t ++ [' ']) ++ '"' :: spaceCommas w
      else F.escaped t ++ spaceCommas ('"' :: w) := by
  induction t with
  | nil => simp
  | cons c t ih =>
    rw [escaped_cons, List.append_assoc]
    by_cases hq : c = '"'
    · -- with the quote that ends the string, a comma here looks like one between strings
      have hsuffix : ['"', ','] <:+ '"' :: t ↔ t = [','] ∨ ['"', ','] <:+ t := by
        rw [List.suffix_cons_iff, List.cons_eq_cons]
        simp [eq_comm]
      have hquoted := F.spaceCommas_quote t w
      rw [List.cons_append] at hquoted
      rw [hq, F.escape_quote, List.cons_append, List.singleton_append,
        spaceCommas_cons_of_ne (by decide), hquoted]
      by_cases hcomma : t = [',']
      · rw [if_pos hcomma, if_pos (hsuffix.mpr (.inl hcomma)), hcomma]
        simp [F.escape_quote]
      · rw [if_neg hcomma, ih]
        by_cases hend : ['"', ','] <:+ t
        · rw [if_pos hend, if_pos (hsuffix.mpr (.inr hend)), List.cons_append, escaped_cons,
            F.escape_quote]
          rfl
        · rw [if_neg hend, if_neg fun h => (hsuffix.mp h).elim hcomma hend]
          rfl
    · have hsuffix : ['"', ','] <:+ c :: t ↔ ['"', ','] <:+ t := by
        rw [List.suffix_cons_iff, List.cons_eq_cons]
        simp [Ne.symm hq]
      rw [spaceCommas_append (F.quote_not_mem hq), ih, if_congr hsuffix rfl rfl]
      split
      · rw [List.cons_append, escaped_cons, List.append_assoc]
      · rw [List.append_assoc]

/-- What follows a string gets its spaces, if the last quote of the string is used up and if it is
free. -/
def EndSpaced (items : List Text) : Prop :=
  spaceCommas (F.listEnd (items.map (0, ·))) = F.listEnd (spacedPairs true items) ∧
    spaceCommas ('"' :: F.listEnd (items.map (0, ·))) = '"' :: F.listEnd (spacedPairs false items)

variable {F}

/-- A string after a quote that is used up, and what follows it. -/
theorem EndSpaced.used (h : F.EndSpaced items) (item : Text) :
    '"' :: spaceCommas (F.escaped item ++ '"' :: F.listEnd (items.map (0, ·))) =
      F.quote (spacedItem false item) ++ F.listEnd (spacedPairs (caught false item) items) := by
  rw [F.spaceCommas_escaped, h.1, h.2, spacedItem, quote]
  by_cases hsuffix : ['"', ','] <:+ item
  · have hcaught : caught false item = true := decide_eq_true (Or.inr hsuffix)
    rw [if_pos hsuffix, hcaught, if_pos rfl]
    simp
  · have hcaught : caught false item = false := by simp [caught, hsuffix]
    rw [if_neg hsuffix, hcaught, if_neg Bool.false_ne_true]
    simp

/-- A string after a quote that is free, and what follows it. -/
theorem EndSpaced.free (h : F.EndSpaced items) (item : Text) :
    spaceCommas ('"' :: F.escaped item ++ '"' :: F.listEnd (items.map (0, ·))) =
      F.quote (spacedItem true item) ++ F.listEnd (spacedPairs (caught true item) items) := by
  rw [F.spaceCommas_quote]
  by_cases hcomma : item = [',']
  · have hcaught : caught true item = true := decide_eq_true (Or.inl ⟨rfl, hcomma⟩)
    rw [if_pos hcomma, h.1, spacedItem, hcaught, if_pos rfl, hcomma, quote]
    simp
  · have hcaught : caught true item = caught false item := by simp [caught, hcomma]
    rw [if_neg hcomma, h.used item, spacedItem, spacedItem, hcaught]

variable (F)

/-- **The spaces of an array**, string by string. -/
theorem endSpaced (items : List Text) : F.EndSpaced items := by
  induction items with
  | nil => exact ⟨rfl, rfl⟩
  | cons item items ih =>
    have hend : F.listEnd ((item :: items).map (0, ·)) =
        ',' :: ('"' :: F.escaped item ++ '"' :: F.listEnd (items.map (0, ·))) := by
      simp [listEnd, quote]
    rw [EndSpaced, hend]
    constructor
    · rw [spaceCommas_cons_of_ne (by decide), ih.free item]
      rfl
    · show '"' :: ',' :: ' ' :: '"' ::
        spaceCommas (F.escaped item ++ '"' :: F.listEnd (items.map (0, ·))) = _
      rw [ih.used item]
      rfl

theorem getLast?_listEnd (items : List (Nat × Text)) : (F.listEnd items).getLast? = some ']' := by
  induction items with
  | nil => rfl
  | cons x items ih =>
    rw [listEnd, ← List.append_assoc, List.getLast?_append, ih]
    rfl

end StringFormat

namespace ArrayFormat

variable (F : ArrayFormat)

/-- The text of an array that is not empty, with its spaces. -/
theorem spaceCommas_write_cons (item : Text) (items : List Text) :
    spaceCommas (F.write (item :: items)) =
      '[' :: (F.quote (spacedItem true item) ++
        F.listEnd (spacedPairs (caught true item) items)) := by
  have hquote : F.quote item ++ F.listEnd (items.map (0, ·)) =
      '"' :: F.escaped item ++ '"' :: F.listEnd (items.map (0, ·)) := by
    simp [StringFormat.quote]
  rw [F.write_cons, hquote, spaceCommas_cons_of_ne (by decide), (F.endSpaced items).free item]

/-- **An array with its spaces is read as its strings with theirs.** -/
theorem read_spaceCommas (items : List Text) :
    F.read (spaceCommas (F.write items)) = .ok (spacedItems true items) := by
  cases items with
  | nil =>
    rw [F.write_nil]
    exact F.read_nil
  | cons item items =>
    rw [F.spaceCommas_write_cons, F.read_cons, map_snd_spacedPairs]
    rfl

/-- The brackets of an array, and what comes after the first. -/
theorem spaceCommas_brackets (items : List Text) : ∃ w, spaceCommas (F.write items) = '[' :: w ∧
    w.getLast? = some ']' ∧ (w.head? = some '"' ∨ w.head? = some ']') := by
  cases items with
  | nil =>
    rw [F.write_nil]
    exact ⟨[']'], rfl, rfl, Or.inr rfl⟩
  | cons item items =>
    refine ⟨_, F.spaceCommas_write_cons item items, ?_, Or.inl rfl⟩
    rw [List.getLast?_append, F.getLast?_listEnd]
    rfl

end ArrayFormat

/-! ## Printing and reading -/

/-- An array is printed in JSON, with its spaces. -/
theorem execText_eq (items : List Text) :
    execText items = spaceCommas (Json.format.write items) := rfl

theorem trimmed_execText (items : List Text) : Text.Trimmed (execText items) := by
  obtain ⟨w, hw, hlast, -⟩ := Json.format.spaceCommas_brackets items
  rw [execText_eq, hw]
  constructor
  · intro c hc
    rw [← Option.some.inj hc]
    decide
  · intro c hc
    rw [List.getLast?_cons, hlast] at hc
    rw [← Option.some.inj hc]
    decide

theorem looksLikeExecForm_execText (items : List Text) :
    looksLikeExecForm (execText items) = true := by
  have htrim := Text.trim_eq_self (trimmed_execText items)
  obtain ⟨w, hw, hlast, hhead⟩ := Json.format.spaceCommas_brackets items
  have hstart : Text.trimStart w = w := by
    apply Text.trimStart_eq_self
    intro c hc
    rcases hhead with h | h <;> rw [h] at hc <;> rw [← Option.some.inj hc] <;> decide
  rw [looksLikeExecForm, htrim, execText_eq, hw]
  simp only [hlast, hstart, beq_self_eq_true, Bool.true_and, Bool.or_eq_true, beq_iff_eq]
  exact hhead

theorem readExecForm_execText (keyword : Keyword) (lines : LineSpan) (items : List Text) :
    readExecForm keyword (execText items) lines = .ok (spacedItems true items) := by
  have hread : Json.readStrings (execText items) = .ok (spacedItems true items) :=
    Json.format.read_spaceCommas items
  rw [readExecForm, Text.trim_eq_self (trimmed_execText items), hread]
  rfl

/-- **An array that is printed is taken for one and read.  It is read back as it was exactly if its
first string is not a comma and none ends with a quote and a comma.** -/
theorem readExecForm_execText_iff (keyword : Keyword) (lines : LineSpan) (items : List Text) :
    looksLikeExecForm (execText items) = true ∧
      readExecForm keyword (execText items) lines = .ok (spacedItems true items) ∧
      (readExecForm keyword (execText items) lines = .ok items ↔
        items.head? ≠ some [','] ∧ ∀ item ∈ items, ¬ ['"', ','] <:+ item) := by
  refine ⟨looksLikeExecForm_execText items, readExecForm_execText keyword lines items, ?_⟩
  rw [readExecForm_execText, Except.ok.injEq, spacedItems_eq_self_iff]
  simp

/-- A comma after a string that is caught is caught too, and one after another string is not. -/
example : spacedItems true [",".toList, ",".toList, "a".toList, ",".toList] =
    [", ".toList, ", ".toList, "a".toList, ",".toList] := by decide

end Containerfile
