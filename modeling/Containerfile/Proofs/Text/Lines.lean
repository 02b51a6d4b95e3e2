import Containerfile.Line.Physical
import Mathlib.Data.List.Basic

/-! # Lines of texts

Splitting a text at line feeds and joining lines by them undo each other on lines that hold none.  A
text in blocks, each with a line feed after it, has the lines of its blocks one after the other
(`Text.lines_flatMap`). -/
namespace Containerfile

namespace Text

/-- A text that stays on one line. -/
def OneLine (t : Text) : Prop := '\n' ∉ t

instance (t : Text) : Decidable (OneLine t) := inferInstanceAs (Decidable ('\n' ∉ t))

theorem OneLine.sublist {t u : Text} (h : OneLine t) (hu : ∀ c ∈ u, c ∈ t) : OneLine u :=
  fun hn => h (hu _ hn)

/-! ## Splitting -/

theorem splitAll_eq_splitOn (sep : Char) (t : Text) : splitAll sep t = t.splitOn sep := by
  induction t with
  | nil => rw [splitAll, List.splitOn_nil]
  | cons c t ih =>
    rw [splitAll, List.splitOn_cons_eq_if_modifyHead, ih]
    by_cases hc : c = sep
    · rw [if_pos hc, if_pos (by simp [hc])]
    · rw [if_neg hc, if_neg (by simp [hc])]
      cases h : t.splitOn sep with
      | nil => exact absurd h (List.splitOn_ne_nil sep t)
      | cons part parts => rfl

theorem splitAll_ne_nil (sep : Char) (t : Text) : splitAll sep t ≠ [] := by
  rw [splitAll_eq_splitOn]
  exact List.splitOn_ne_nil sep t

theorem splitAll_append (sep : Char) (t u : Text) :
    splitAll sep (t ++ sep :: u) = splitAll sep t ++ splitAll sep u := by
  rw [splitAll_eq_splitOn, splitAll_eq_splitOn, splitAll_eq_splitOn,
    List.splitOn_append_cons_self]

theorem splitAll_of_not_mem {sep : Char} {t : Text} (h : sep ∉ t) : splitAll sep t = [t] := by
  rw [splitAll_eq_splitOn, List.splitOn_eq_singleton h]

theorem splitAll_join {sep : Char} {parts : List Text} (h : ∀ p ∈ parts, sep ∉ p)
    (hne : parts ≠ []) : splitAll sep (join [sep] parts) = parts := by
  rw [splitAll_eq_splitOn, join]
  exact List.splitOn_intercalate sep h hne

theorem join_cons_cons (sep t u : Text) (parts : List Text) :
    join sep (t :: u :: parts) = t ++ sep ++ join sep (u :: parts) := by
  rw [join, List.intercalate_cons_cons]
  rfl

/-- Joining makes no characters but those of the parts and of what stands between them. -/
theorem mem_join {sep : Text} {parts : List Text} {c : Char} (h : c ∈ join sep parts) :
    c ∈ sep ∨ ∃ part ∈ parts, c ∈ part := by
  induction parts with
  | nil => exact absurd h List.not_mem_nil
  | cons part parts ih =>
    cases parts with
    | nil =>
      rw [join, List.intercalate_singleton] at h
      exact Or.inr ⟨part, List.mem_singleton_self part, h⟩
    | cons next parts =>
      rw [join_cons_cons, List.mem_append, List.mem_append] at h
      rcases h with (h | h) | h
      · exact Or.inr ⟨part, List.mem_cons_self, h⟩
      · exact Or.inl h
      · refine (ih h).imp_right ?_
        rintro ⟨other, hother, hc⟩
        exact ⟨other, List.mem_cons_of_mem _ hother, hc⟩

theorem not_mem_of_mem_splitAll {sep : Char} {t part : Text} (h : part ∈ splitAll sep t) :
    sep ∉ part := by
  induction t generalizing part with
  | nil =>
    rw [splitAll, List.mem_singleton] at h
    rw [h]
    simp
  | cons c t ih =>
    rw [splitAll] at h
    by_cases hc : c = sep
    · rw [if_pos hc] at h
      rcases List.mem_cons.mp h with rfl | h
      · simp
      · exact ih h
    · rw [if_neg hc] at h
      cases hs : splitAll sep t with
      | nil => exact absurd hs (splitAll_ne_nil sep t)
      | cons first parts =>
        rw [hs] at h ih
        rcases List.mem_cons.mp h with rfl | h
        · intro hmem
          rcases List.mem_cons.mp hmem with heq | hmem
          · exact hc heq.symm
          · exact ih List.mem_cons_self hmem
        · exact ih (List.mem_cons_of_mem _ h)

/-! ## Lines -/

theorem mem_of_mem_dropReturn {t : Text} {c : Char} (h : c ∈ PhysicalLine.dropReturn t) :
    c ∈ t := by
  rw [PhysicalLine.dropReturn] at h
  split at h
  · exact List.dropLast_subset t h
  · exact h

/-- What stands before a line feed has its lines before those of what follows. -/
theorem lines_append (t u : Text) :
    lines (t ++ '\n' :: u) = (splitAll '\n' t).map PhysicalLine.dropReturn ++ lines u := by
  have hu := splitAll_ne_nil '\n' u
  rw [lines, lines, splitAll_append, List.dropLast_append_of_ne_nil hu,
    List.getLast?_append_of_ne_nil _ hu, List.map_append]
  split
  · rfl
  · rfl
  · rw [List.append_assoc]
    rfl

theorem lines_nil : lines [] = [] := rfl

/-- **The lines of blocks.** -/
theorem lines_flatMap (blocks : List Text) :
    lines (blocks.flatMap (· ++ ['\n'])) =
      blocks.flatMap fun b => (splitAll '\n' b).map PhysicalLine.dropReturn := by
  induction blocks with
  | nil => rfl
  | cons b blocks ih =>
    rw [List.flatMap_cons, List.flatMap_cons, List.append_assoc, List.singleton_append,
      lines_append, ih]

/-- The lines of a text as they are read, carriage returns at their ends dropped. -/
def lineTexts (t : Text) : List Text :=
  ((splitAll '\n' t).map PhysicalLine.dropReturn).map PhysicalLine.dropReturn

/-- The lines of texts with line feeds between. -/
theorem lineTexts_join {parts : List Text} (hne : parts ≠ []) :
    lineTexts (join ['\n'] parts) = parts.flatMap lineTexts := by
  induction parts with
  | nil => exact absurd rfl hne
  | cons p parts ih =>
    cases parts with
    | nil => rw [join, List.intercalate_singleton, List.flatMap_singleton]
    | cons q parts =>
      rw [join_cons_cons, List.append_assoc, List.singleton_append, lineTexts, splitAll_append,
        List.map_append, List.map_append, List.flatMap_cons, ← ih (by simp)]
      rfl

theorem oneLine_of_mem_lines {t line : Text} (h : line ∈ lines t) : OneLine line := by
  have hpart : ∀ part ∈ splitAll '\n' t, OneLine part := fun part hp => not_mem_of_mem_splitAll hp
  have hended : ∀ l ∈ (splitAll '\n' t).dropLast.map PhysicalLine.dropReturn, OneLine l := by
    intro l hl
    obtain ⟨part, hp, rfl⟩ := List.mem_map.mp hl
    exact (hpart part (List.dropLast_subset _ hp)).sublist fun c hc => mem_of_mem_dropReturn hc
  rw [lines] at h
  split at h
  · exact hended line h
  · exact hended line h
  · rename_i last _ hlast
    rcases List.mem_append.mp h with h | h
    · exact hended line h
    · rw [List.mem_singleton.mp h]
      exact hpart last (List.mem_of_getLast? hlast)

end Text

end Containerfile
