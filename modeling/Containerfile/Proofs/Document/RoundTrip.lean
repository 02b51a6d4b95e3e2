import Containerfile.Proofs.Document.Blocks

/-! # Printing and reading again

The text of a document that was read can be read again to the same instructions, line numbers
aside, if and only if each of its entries can be read back alone, in the context that the
instructions before it make (`Document.roundTrips_iff`).  So whether a document survives
printing is decided entry by entry.  Not every one does: a path with quotes in it is printed as
it is, and loses them. -/
namespace Containerfile

open Progress

namespace Document

/-- The instructions of a document in order, without line numbers. -/
def kinds (d : Document) : List Instruction := d.entries.map fun e => e.instruction.unnumbered

/-- Whether the text of a document is read to the same instructions and printed in the same way
again. -/
def RoundTrips (d : Document) : Prop :=
  ∃ d', read {} d.render = .ok d' ∧ d'.kinds = d.kinds ∧ d'.render = d.render

/-- The instructions of a document in order. -/
def instructions (d : Document) : List Instruction := d.entries.map Entry.instruction

variable {t : Text} {d : Document} {p q : Progress}

/-! ## Texts -/

theorem stageBlocks_congr {ss ss' : List Stage}
    (h : ss.map Stage.render = ss'.map Stage.render) (b : Bool) :
    stageBlocks b ss = stageBlocks b ss' := by
  induction ss generalizing ss' b with
  | nil =>
    rw [List.map_nil, eq_comm, List.map_eq_nil_iff] at h
    rw [h]
  | cons s ss ih =>
    obtain ⟨s', ks, rfl, hs, hks⟩ := List.map_eq_cons_iff.mp h.symm
    rw [stageBlocks, stageBlocks, hs, ih hks.symm]

/-- Places with the same outline make documents with the same text. -/
theorem render_of_outline {ds ds' : Directives} (hp : p.outline = q.outline)
    (hds : directiveLines ds = directiveLines ds') :
    (p.document ds).render = (q.document ds').render := by
  obtain ⟨-, -, hstages, hglobals, -⟩ := outline_eq_iff.mp hp
  -- line numbers are not printed, so what an outline keeps is enough
  have hentries : ∀ es : List Entry,
      es.map Entry.render = (es.map Entry.unnumbered).map Entry.render := by
    intro es
    rw [List.map_map]
    apply List.map_congr_left
    intro e _
    exact e.instruction.render_unnumbered.symm
  have hstage : ∀ s : Stage, s.unnumbered.render = s.render := by
    intro s
    have hsame : s.unnumbered.entries.map Entry.render = s.entries.map Entry.render := by
      show s.openingEntry.render :: (s.body.map Entry.unnumbered).map Entry.render =
        s.openingEntry.render :: s.body.map Entry.render
      rw [← hentries]
    rw [Stage.render, Stage.render, hsame]
  have hfinish : ∀ p : Progress, (p.assembly.finish p.scope).map Stage.render =
      (p.assembly.stages.map Stage.unnumbered).toList.map Stage.render := by
    intro p
    rw [Assembly.finish, Draft.toList_map, List.map_map, List.map_map]
    apply List.map_congr_left
    intro s _
    exact (hstage s).symm
  have hrender : p.globals.map Entry.render = q.globals.map Entry.render := by
    rw [hentries, hglobals, ← hentries]
  have hempty : p.globals.isEmpty = q.globals.isEmpty := by
    rw [← List.isEmpty_map (f := Entry.render), hrender, List.isEmpty_map]
  have hblocks : ∀ b, stageBlocks b (p.assembly.finish p.scope) =
      stageBlocks b (q.assembly.finish q.scope) := by
    apply stageBlocks_congr
    rw [hfinish, hfinish, Assembly.stages_of_unnumbered hstages]
  show (directiveLines ds ++ p.globals.map Entry.render ++
    stageBlocks (!p.globals.isEmpty) (p.assembly.finish p.scope)).flatMap (· ++ ['\n']) = _
  rw [hds, hrender, hempty, hblocks]
  rfl

/-! ## Documents that were read -/

/-- What is known of a document that was read from a text. -/
theorem reached_of_read (h : read {} t = .ok d) :
    ∃ p : Progress, d = p.document d.directives ∧ p.Complete ∧ d.directives.Sound ∧
      (∀ e ∈ d.entries, e.instruction.Printable) ∧ AllAccepted [] d.instructions ∧
        p.outline = (replay d.instructions).outline := by
  obtain ⟨-, es, p, hrun, hcomplete, rfl⟩ := read_eq_ok_iff.mp h
  obtain ⟨hds, hlines⟩ := Layout.sound_read true t
  have hentries : (p.document (Layout.read true t.lines).preamble.directives).entries = es := by
    rw [entries_document, hrun.entries]
    rfl
  have hscope : (start (Layout.read true t.lines)).scope.OneLine :=
    ⟨fun b hb => absurd hb List.not_mem_nil, fun l hl => absurd hl List.not_mem_nil⟩
  have hstart : (start (Layout.read true t.lines)).outline = (replay []).outline := rfl
  have hmap : es.map (fun e => e.instruction.unnumbered) =
      (es.map Entry.instruction).map Instruction.unnumbered := by
    rw [List.map_map]
    rfl
  obtain ⟨hall, hout⟩ := hrun.outline hstart hmap
  rw [instructions, hentries]
  exact ⟨p, rfl, hcomplete, hds, hrun.printable hscope hlines, hall, hout⟩

theorem entries_ne_nil (h : p.Complete) (ds : Directives) : (p.document ds).entries ≠ [] := by
  have hcheck := h.2
  rw [checkDocument] at hcheck
  split at hcheck
  · cases hcheck
  · split at hcheck
    · cases hcheck
    · rename_i hstages
      intro hnil
      rw [entries, List.append_eq_nil_iff] at hnil
      apply hstages
      show (p.assembly.finish p.scope).isEmpty = true
      cases hs : p.assembly.finish p.scope with
      | nil => rfl
      | cons s ss =>
        have hstage : (p.document ds).stages = s :: ss := hs
        rw [hstage, List.flatMap_cons, Stage.entries] at hnil
        cases hnil.2

/-- **How the lines of a printed document are read.** -/
theorem layout_render (hds : d.directives.Sound)
    (hprint : ∀ e ∈ d.entries, e.instruction.Printable) (hne : d.entries ≠ []) :
    ∃ rest, Layout.read true d.render.lines =
        ⟨{ directives := { d.directives with escape := none } },
          (LogicalLine.readAll defaultEscape rest).1, (LogicalLine.readAll defaultEscape rest).2⟩ ∧
      rest.map PhysicalLine.text = Spaced.texts d.spaced ∧
        ∀ k ∈ rest, Text.OneLine k.text := by
  have htexts := texts_render hds
  obtain ⟨e, xs, hspaced⟩ : ∃ e xs, d.spaced = (false, e) :: xs := by
    cases hs : d.spaced with
    | nil =>
      rw [← entries_spaced, hs] at hne
      exact absurd rfl hne
    | cons x xs =>
      have hgap := head?_spaced d x (by rw [hs]; rfl)
      obtain ⟨gap, e⟩ := x
      cases hgap
      exact ⟨e, xs, rfl⟩
  have hmem : e ∈ d.entries := by
    rw [← entries_spaced, hspaced]
    exact List.mem_cons_self
  obtain ⟨first, more, hcons, hlettered⟩ := Entry.lineTexts_eq_cons (hprint e hmem)
  have hbody : Spaced.texts d.spaced = first :: (more ++ Spaced.texts xs) := by
    rw [hspaced, Spaced.texts_cons, hcons]
    rfl
  -- the text begins with a directive or with a keyword
  obtain ⟨c, hmark, hhead⟩ : ∃ c, c ≠ PhysicalLine.byteOrderMark ∧
      (d.render.lines.map PhysicalLine.dropReturn).head?.bind List.head? = some c := by
    rw [htexts, hbody]
    obtain ⟨c, hc, halpha⟩ := hlettered
    have hletter : c ≠ PhysicalLine.byteOrderMark := by
      rintro rfl
      exact absurd halpha (by decide)
    obtain ⟨escape, frontend, check⟩ := d.directives
    cases frontend with
    | some v => exact ⟨'#', by decide, rfl⟩
    | none =>
      cases check with
      | some v => exact ⟨'#', by decide, rfl⟩
      | none => exact ⟨c, hletter, hc⟩
  have hls := PhysicalLine.map_text_ofLines hmark hhead
  rw [htexts, hbody] at hls
  obtain ⟨rest, hread, hrest⟩ := Preamble.read_printed true hds hlettered hls
  refine ⟨rest, ?_, ?_, ?_⟩
  · rw [Layout.read, hread]
  · rw [hrest, hbody]
  · have hnone : ({} : Preamble).directives.Sound := by
      intro v hv
      cases hv
    have hsound := Preamble.sound_readOn true rest hnone
      (PhysicalLine.oneLine_ofLines d.render)
    rw [Preamble.read] at hread
    rw [hread] at hsound
    exact hsound.2 rfl

/-! ## Round trips -/

/-- The instructions of a run make the kinds of its document. -/
theorem kinds_of_run {layout : Layout} {es : List Entry}
    (h : Progress.Run (start layout) layout.lines es p) (ds : Directives) :
    (p.document ds).kinds = es.map fun e => e.instruction.unnumbered := by
  rw [kinds, entries_document, h.entries]
  rfl

/-- Every entry is read back if and only if the text of the document is read to its instructions. -/
theorem roundTrips_iff_allReadBack (h : read {} t = .ok d) :
    d.RoundTrips ↔ AllReadBack [] d.entries := by
  obtain ⟨p, hd, hcomplete, hds, hprint, hall, hout⟩ := reached_of_read h
  have hne : d.entries ≠ [] := by
    rw [hd]
    exact entries_ne_nil hcomplete _
  obtain ⟨rest, hlayout, hrest, hone⟩ := layout_render hds hprint hne
  have hinstructions : Spaced.instructions d.spaced = d.instructions := by
    rw [instructions, ← entries_spaced, List.map_map]
    rfl
  have hspaced : ∀ x ∈ d.spaced, x.2.instruction.Printable := by
    intro x hx
    apply hprint
    rw [← entries_spaced]
    exact List.mem_map_of_mem hx
  have hkinds : d.kinds = d.instructions.map Instruction.unnumbered := by
    rw [kinds, instructions, List.map_map]
    rfl
  constructor
  · -- a reading of the text is a run, and the kinds say what its lines are read as
    rintro ⟨d', hread, hsame, -⟩
    obtain ⟨hfail, es, r, hrun, -, rfl⟩ := read_eq_ok_iff.mp hread
    have hes : es.map (fun e => e.instruction.unnumbered) =
        d.instructions.map Instruction.unnumbered := by
      rw [← kinds_of_run hrun, hsame, hkinds]
    rw [hlayout] at hfail hrun
    have hreads : ReadAs [] (LogicalLine.readAll defaultEscape rest).1 d.instructions :=
      hrun.readAs rfl rfl hes
    rw [← hinstructions] at hreads
    rw [← entries_spaced]
    exact LogicalLine.allReadBack_of_readAll hone hrest hspaced hfail hreads
  · -- the lines are read as instructions that were taken once, so they are taken again
    intro hback
    rw [← entries_spaced] at hback
    obtain ⟨hfail, hreads⟩ := LogicalLine.readAll_of_allReadBack hrest hspaced hback
    rw [hinstructions] at hreads
    generalize hl : Layout.read true d.render.lines = layout at hlayout
    have hescape : (start layout).scope.escape = defaultEscape := by
      rw [hlayout]
      rfl
    have hstart : (start layout).outline = (replay []).outline := rfl
    obtain ⟨es, r, hrun, hes⟩ := Progress.Run.of_readAs hreads hall hstart hescape
    have hreached : r.outline = p.outline := by
      rw [hout]
      exact (hrun.outline hstart hes).2
    have hlines : layout.lines = (LogicalLine.readAll defaultEscape rest).1 := by rw [hlayout]
    have hnone : layout.failure = none := by
      rw [hlayout]
      exact hfail
    rw [← hlines] at hrun
    refine ⟨r.document layout.preamble.directives, ?_, ?_, ?_⟩
    · apply read_eq_ok_iff.mpr
      rw [hl]
      exact ⟨hnone, es, r, hrun, hcomplete.of_outline hreached.symm, rfl⟩
    · rw [kinds_of_run hrun, hes, hkinds]
    · have hdirectives : directiveLines layout.preamble.directives =
          directiveLines d.directives := by
        rw [hlayout]
        rfl
      rw [render_of_outline hreached hdirectives, ← hd]

/-- **Which documents survive being printed.**  The text of a document that was read is read again
to the same instructions, line numbers aside, and printed in the same way, if and only if each entry
can be read back alone in the context that the instructions before it make, by a reading that takes
all of its lines and would take none of those that may follow. -/
theorem roundTrips_iff (h : read {} t = .ok d) :
    d.RoundTrips ↔
      ∀ before e after, d.entries = before ++ e :: after →
        e.readsBack (contextAfter (before.map Entry.instruction)) (!after.isEmpty) = true := by
  rw [roundTrips_iff_allReadBack h, allReadBack_nil_iff]

/-- A document of one stage without anything but a working directory. -/
def workdirIn (path : Text) : Document :=
  { directives := {}
    globalArgs := []
    globals := []
    stages :=
      [{ index := 0
         opening := ⟨⟨none, "scratch".toList, none, none⟩, none, none⟩
         openingLines := .single 1
         base := .scratch
         body := [⟨.step (.workdir path), .single 2⟩] }]
    diagnostics := [] }

/-- A path with a blank in it is printed and read back; a path with a quote in it is not. -/
theorem roundTrips_iff_workdir :
    read {} "FROM scratch\nWORKDIR 'a b'\n".toList = .ok (workdirIn "a b".toList) ∧
      (workdirIn "a b".toList).RoundTrips ∧
      read {} "FROM scratch\nWORKDIR 'a\"b'\n".toList = .ok (workdirIn "a\"b".toList) ∧
      ¬(workdirIn "a\"b".toList).RoundTrips := by
  have hblank : read {} "FROM scratch\nWORKDIR 'a b'\n".toList = .ok (workdirIn "a b".toList) := by
    decide +kernel
  have hquote : read {} "FROM scratch\nWORKDIR 'a\"b'\n".toList =
      .ok (workdirIn "a\"b".toList) := by
    decide +kernel
  refine ⟨hblank, ?_, hquote, ?_⟩
  · apply (roundTrips_iff hblank).mpr
    have hback : AllReadBack [] (workdirIn "a b".toList).entries :=
      ⟨by decide +kernel, by decide +kernel, trivial⟩
    exact allReadBack_nil_iff.mp hback
  · intro h
    have hback := (roundTrips_iff hquote).mp h [(workdirIn "a\"b".toList).entries[0]]
      ⟨.step (.workdir "a\"b".toList), .single 2⟩ [] rfl
    revert hback
    decide +kernel

end Document

end Containerfile
