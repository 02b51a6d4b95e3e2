import Containerfile.Proofs.Line.Preamble

/-! # Printed documents line by line

The text of a document is its directives and then its entries one after the other, with an empty
line before every stage that something stands before (`Document.texts_render`).  The lines of an
entry are the same wherever it stands, so they can be told apart from those of the others. -/
namespace Containerfile

open Text

/-- Entries, each marked if an empty line stands before it. -/
abbrev Spaced := List (Bool × Entry)

/-- The lines of entries with the empty lines between them. -/
def Spaced.texts (xs : Spaced) : List Text :=
  xs.flatMap fun x => (if x.1 then [[]] else []) ++ x.2.lineTexts

/-- The entries of stages with an empty line before each stage that something stands before. -/
def Stage.spaced (afterOthers : Bool) : List Stage → Spaced
  | [] => []
  | s :: stages =>
    (afterOthers, s.openingEntry) :: s.body.map (false, ·) ++ spaced true stages

namespace Document

/-- The entries of a document as they are spaced in its text. -/
def spaced (d : Document) : Spaced :=
  d.globals.map (false, ·) ++ Stage.spaced (!d.globals.isEmpty) d.stages

variable {d : Document}

theorem entries_spaced (d : Document) : d.spaced.map Prod.snd = d.entries := by
  have hunmark : ∀ es : List Entry, (es.map fun e => (false, e)).map Prod.snd = es := by
    intro es
    rw [List.map_map]
    exact List.map_id es
  have hstages : ∀ (stages : List Stage) (b : Bool),
      (Stage.spaced b stages).map Prod.snd = stages.flatMap Stage.entries := by
    intro stages
    induction stages with
    | nil =>
      intro b
      rfl
    | cons s stages ih =>
      intro b
      rw [Stage.spaced, List.map_append, List.map_cons, hunmark, ih true, List.flatMap_cons]
      rfl
  rw [spaced, List.map_append, hunmark, hstages, entries]

/-- No empty line stands before the first entry. -/
theorem head?_spaced (d : Document) : ∀ x ∈ d.spaced.head?, x.1 = false := by
  intro x hx
  cases hg : d.globals with
  | nil =>
    rw [spaced, hg] at hx
    cases hs : d.stages with
    | nil =>
      rw [hs] at hx
      cases hx
    | cons s stages =>
      rw [hs] at hx
      cases hx
      rfl
  | cons e es =>
    rw [spaced, hg] at hx
    cases hx
    rfl

theorem lineTexts_directiveLines {ds : Directives} (hds : ds.Sound) :
    (directiveLines ds).flatMap lineTexts = directiveLines ds := by
  have hline : ∀ {name : String} {v : Text}, Text.OneLine name.toList →
      v ∈ ds.frontend.toList ++ ds.check.toList →
        lineTexts (directiveText name v) = [directiveText name v] := by
    intro name v hname hv
    obtain ⟨hne, htrim, hone⟩ := hds v hv
    have hlast : (directiveText name v).getLast? ≠ some '\r' := by
      rw [directiveText, List.append_cons, List.getLast?_append_of_ne_nil _ hne]
      intro hr
      exact absurd (htrim.2 '\r' hr) (by decide)
    have htext : Text.OneLine (directiveText name v) := by
      rw [directiveText, oneLine_append, oneLine_append, oneLine_cons]
      exact ⟨⟨by decide, hname⟩, by decide, hone⟩
    have hkeep : PhysicalLine.dropReturn (directiveText name v) = directiveText name v := by
      rw [PhysicalLine.dropReturn, if_neg hlast]
    rw [lineTexts, splitAll_of_not_mem htext, List.map_singleton, List.map_singleton, hkeep, hkeep]
  have hlines : ∀ l ∈ directiveLines ds, lineTexts l = [l] := by
    intro l hl
    rw [directiveLines] at hl
    split at hl
    · cases hl
    · rcases List.mem_append.mp hl with hl | hl
      · rcases List.mem_append.mp hl with hl | hl
        · obtain ⟨v, hv, rfl⟩ := Option.map_eq_some_iff.mp (Option.mem_toList.mp hl)
          exact hline (by decide) (List.mem_append_left _ (Option.mem_toList.mpr hv))
        · obtain ⟨v, hv, rfl⟩ := Option.map_eq_some_iff.mp (Option.mem_toList.mp hl)
          exact hline (by decide) (List.mem_append_right _ (Option.mem_toList.mpr hv))
      · rw [List.mem_singleton.mp hl]
        rfl
  generalize directiveLines ds = lines at hlines
  induction lines with
  | nil => rfl
  | cons l lines ih =>
    rw [List.forall_mem_cons] at hlines
    rw [List.flatMap_cons, hlines.1, ih hlines.2]
    rfl

theorem texts_of_entries (es : List Entry) :
    Spaced.texts (es.map fun e => (false, e)) = es.flatMap Entry.lineTexts := by
  rw [Spaced.texts, List.flatMap_map]
  rfl

theorem lineTexts_stageBlocks (stages : List Stage) (b : Bool) :
    (stageBlocks b stages).flatMap lineTexts = Spaced.texts (Stage.spaced b stages) := by
  induction stages generalizing b with
  | nil => rfl
  | cons s stages ih =>
    have hgap : (if b = true then [[]] else []).flatMap lineTexts =
        (if b = true then [[]] else []) := by
      cases b with
      | true => rfl
      | false => rfl
    have hstage : lineTexts s.render = s.entries.flatMap Entry.lineTexts := by
      rw [Stage.render, lineTexts_join (by rw [Stage.entries]; simp), List.flatMap_map]
      rfl
    have htexts : Spaced.texts ((b, s.openingEntry) :: s.body.map (false, ·)) =
        (if b = true then [[]] else []) ++ s.entries.flatMap Entry.lineTexts := by
      rw [Spaced.texts, List.flatMap_cons, ← Spaced.texts, texts_of_entries, List.append_assoc,
        Stage.entries, List.flatMap_cons]
    rw [stageBlocks, List.flatMap_append, List.flatMap_cons, hgap, hstage, ih true, Stage.spaced,
      Spaced.texts, Spaced.texts, List.flatMap_append, ← Spaced.texts, ← Spaced.texts, htexts,
      List.append_assoc]

/-- **The lines of a printed document.** -/
theorem texts_render (hds : d.directives.Sound) :
    d.render.lines.map PhysicalLine.dropReturn =
      directiveLines d.directives ++ Spaced.texts d.spaced := by
  have hblocks : ∀ blocks : List Text,
      (blocks.flatMap fun b => (splitAll '\n' b).map PhysicalLine.dropReturn).map
        PhysicalLine.dropReturn = blocks.flatMap lineTexts := by
    intro blocks
    rw [List.map_flatMap]
    rfl
  have hglobals : (d.globals.map Entry.render).flatMap lineTexts =
      Spaced.texts (d.globals.map (false, ·)) := by
    rw [texts_of_entries, List.flatMap_map]
    rfl
  rw [render, lines_flatMap, hblocks, List.flatMap_append, List.flatMap_append,
    lineTexts_directiveLines hds, hglobals, lineTexts_stageBlocks, spaced, Spaced.texts,
    Spaced.texts, Spaced.texts, List.flatMap_append, List.append_assoc]

end Document

end Containerfile
