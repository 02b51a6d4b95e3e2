import Containerfile.Proofs.Instruction.OneLine
import Containerfile.Proofs.Text.Case

/-! # The physical lines of a printed instruction

The lines of a printed instruction as they are read again, carriage returns at their ends dropped
(`Entry.lineTexts`).  The first one begins with the keyword, so it is no comment and not empty; the
last one is visible; and as many are visible as the heredocs weigh, and one more
(`Entry.visibleAll_lineTexts`). -/
namespace Containerfile

open Text

namespace Text

/-- How many of some lines are not empty. -/
def visibleAll (ts : List Text) : Nat := ts.countP fun t => !t.trim.isEmpty

variable {t : Text} {c : Char}

theorem visibleAll_append (ts us : List Text) :
    visibleAll (ts ++ us) = visibleAll ts + visibleAll us := List.countP_append

theorem visible_of_mem (hc : c ∈ t) (hblank : isBlank c = false) : t.trim ≠ [] := by
  intro hnil
  rw [trim_eq_nil_iff.mp hnil c hc] at hblank
  cases hblank

/-- A line that is visible counts. -/
theorem visibleAll_pos {ts : List Text} (ht : t ∈ ts) (hv : t.trim ≠ []) : 0 < visibleAll ts := by
  rw [visibleAll, List.countP_pos_iff]
  exact ⟨t, ht, by simp [hv]⟩

/-! ## Carriage returns -/

/-- A carriage return is a blank, so it is trimmed with the others. -/
theorem trim_dropReturn (t : Text) : (PhysicalLine.dropReturn t).trim = t.trim := by
  rw [PhysicalLine.dropReturn]
  split
  · rename_i hlast
    obtain ⟨u, rfl⟩ := List.getLast?_eq_some_iff.mp hlast
    rw [List.dropLast_concat, trim_concat_of_isBlank (by decide)]
  · rfl

/-- Dropping carriage returns leaves as many lines visible. -/
theorem visibleAll_dropReturn (ts : List Text) :
    visibleAll (ts.map PhysicalLine.dropReturn) = visibleAll ts := by
  rw [visibleAll, List.countP_map, visibleAll]
  congr 1
  funext t
  show (!(PhysicalLine.dropReturn t).trim.isEmpty) = _
  rw [trim_dropReturn]

/-! ## Lines that begin with a letter -/

/-- A text that begins with a letter. -/
def Lettered (t : Text) : Prop := ∃ c ∈ t.head?, c.isAlpha = true

theorem Lettered.trim_ne_nil (h : Lettered t) : t.trim ≠ [] := by
  obtain ⟨c, hc, halpha⟩ := h
  exact visible_of_mem (List.mem_of_mem_head? hc) (isBlank_of_isAlpha halpha)

theorem Lettered.trim (h : Lettered t) : Lettered t.trim := by
  obtain ⟨c, hc, halpha⟩ := h
  have hblank := isBlank_of_isAlpha halpha
  have hstart : trimStart t = t := by
    apply trimStart_eq_self
    intro d hd
    rw [Option.mem_unique hd hc]
    exact hblank
  have hne : t.trimEnd ≠ [] := by
    intro hnil
    rw [trimEnd_eq_nil_iff.mp hnil c (List.mem_of_mem_head? hc)] at hblank
    cases hblank
  obtain ⟨u, hu⟩ := trimEnd_isPrefix t
  rw [← hu, List.head?_append_of_ne_nil _ hne] at hc
  rw [Text.trim, hstart]
  exact ⟨c, hc, halpha⟩

theorem Lettered.dropReturn (h : Lettered t) : Lettered (PhysicalLine.dropReturn t) := by
  obtain ⟨c, hc, halpha⟩ := h
  rw [PhysicalLine.dropReturn]
  split
  · rename_i hlast
    obtain ⟨u, rfl⟩ := List.getLast?_eq_some_iff.mp hlast
    rw [List.dropLast_concat]
    cases u with
    | nil =>
      cases hc
      exact absurd halpha (by decide)
    | cons d u => exact ⟨c, hc, halpha⟩
  · exact ⟨c, hc, halpha⟩

/-- A line that begins with a letter says something. -/
theorem Lettered.not_idle {l : PhysicalLine} (h : Lettered l.text) : l.isIdle = false := by
  obtain ⟨c, hc, halpha⟩ := h.trim
  have hempty : l.isEmpty = false := by
    rw [PhysicalLine.isEmpty, List.isEmpty_eq_false_iff]
    exact h.trim_ne_nil
  have hcomment : l.isComment = false := by
    rw [PhysicalLine.isComment, Option.mem_def.mp hc, beq_eq_false_iff_ne]
    intro heq
    cases heq
    exact absurd halpha (by decide)
  rw [PhysicalLine.isIdle, hempty, hcomment]
  rfl

end Text

theorem Keyword.lettered_text (k : Keyword) : Lettered k.text := by
  cases k <;> exact ⟨_, rfl, by decide⟩

theorem Text.Lettered.append {t : Text} (h : Lettered t) (u : Text) : Lettered (t ++ u) := by
  obtain ⟨c, hc, halpha⟩ := h
  refine ⟨c, ?_, halpha⟩
  rw [List.head?_append, Option.mem_def.mp hc]
  rfl

/-- The head of an instruction begins with its keyword. -/
theorem Instruction.lettered_head (i : Instruction) : Lettered i.head := by
  cases i with
  | fromImage b => exact (Keyword.lettered_text .fromImage).append _
  | step s => exact (Keyword.lettered_text s.keyword).append _
  | onbuild s => exact (Keyword.lettered_text .onbuild).append _
  | maintainer name => exact (Keyword.lettered_text .maintainer).append _

namespace Entry

/-- The lines of a printed entry as they are read again. -/
def lineTexts (e : Entry) : List Text := Text.lineTexts e.render

variable {e : Entry}

theorem lineTexts_eq (h : e.instruction.Printable) :
    e.lineTexts =
      ((e.instruction.head :: e.instruction.heredocs.flatMap Heredoc.printedLines).map
        PhysicalLine.dropReturn).map PhysicalLine.dropReturn := by
  rw [lineTexts, Text.lineTexts, Entry.render, Instruction.splitAll_render h]

/-- The first line begins with the keyword. -/
theorem lineTexts_eq_cons (h : e.instruction.Printable) :
    ∃ first more, e.lineTexts = first :: more ∧ Lettered first := by
  rw [lineTexts_eq h, List.map_cons, List.map_cons]
  exact ⟨_, _, rfl, e.instruction.lettered_head.dropReturn.dropReturn⟩

/-- **As many lines are visible as the heredocs weigh, and one more.** -/
theorem visibleAll_lineTexts (h : e.instruction.Printable) :
    visibleAll e.lineTexts = Heredoc.totalWeight e.instruction.heredocs + 1 := by
  have hhead : (!e.instruction.head.trim.isEmpty) = true := by
    rw [Bool.not_eq_true', List.isEmpty_eq_false_iff]
    exact e.instruction.lettered_head.trim_ne_nil
  rw [lineTexts_eq h, visibleAll_dropReturn, visibleAll_dropReturn, visibleAll,
    List.countP_cons_of_pos (by exact hhead), countP_printedLines h.delimited]

/-- The last line is visible. -/
theorem getLast?_lineTexts (h : e.instruction.Printable) :
    ∀ t ∈ e.lineTexts.getLast?, t.trim ≠ [] := by
  have hlast : ∀ t ∈ (e.instruction.head ::
      e.instruction.heredocs.flatMap Heredoc.printedLines).getLast?, t.trim ≠ [] := by
    intro t ht
    by_cases hnil : e.instruction.heredocs = []
    · rw [hnil, List.flatMap_nil, List.getLast?_singleton, Option.mem_some_iff] at ht
      rw [← ht]
      exact e.instruction.lettered_head.trim_ne_nil
    · -- the last line is the delimiter of the last heredoc
      obtain ⟨hs, k, hhs⟩ := List.eq_nil_or_concat e.instruction.heredocs |>.resolve_left hnil
      have hword : k.Delimited := h.delimited k (by rw [hhs]; simp)
      rw [hhs, List.concat_eq_append, List.flatMap_append, List.flatMap_singleton,
        Heredoc.printedLines, ← List.append_assoc, ← List.cons_append, List.getLast?_concat,
        Option.mem_some_iff] at ht
      rw [← ht]
      obtain ⟨c, u, hcu⟩ : ∃ c u, k.delimiter = c :: u := by
        cases hd : k.delimiter with
        | nil =>
          rw [Heredoc.Delimited, hd] at hword
          cases hword
        | cons c u => exact ⟨c, u, rfl⟩
      have hc : c ∈ k.delimiter := by rw [hcu]; exact List.mem_cons_self
      exact visible_of_mem hc (HeredocMarker.isBlank_of_isWord hword c hc)
  intro t ht
  rw [lineTexts_eq h, List.getLast?_map, List.getLast?_map, Option.map_map] at ht
  obtain ⟨u, hu, rfl⟩ := Option.map_eq_some_iff.mp ht
  intro hnil
  change (PhysicalLine.dropReturn (PhysicalLine.dropReturn u)).trim = [] at hnil
  rw [trim_dropReturn, trim_dropReturn] at hnil
  exact hlast u hu hnil

end Entry

end Containerfile
