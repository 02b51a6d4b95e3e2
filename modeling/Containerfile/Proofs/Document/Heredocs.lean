import Containerfile.Proofs.Document.Replay
import Containerfile.Proofs.Grammar.Heredocs

/-! # Readings pass heredocs on

What is known between two logical lines decides nothing by the heredocs in it: variables and stage
names do not come from them, and no rule of the lints looks at them.  So a reading of lines whose
heredocs were changed goes the same way as the reading of the lines, through the same places with
their heredocs changed (`Progress.takeAll_mapHeredocs`), and ends in the same failure or in the same
document with its heredocs changed (`Document.complete_mapHeredocs`).

Together with what is known of the logical lines of a file (`Layout.changed_of_rewrite`) this says
that no body of a heredoc has a say in anything.

Main statement: `Document.readFully_rewrite`. -/
namespace Containerfile

variable (g : Heredoc → Heredoc)

/-- An entry with its heredocs changed. -/
def Entry.mapHeredocs (e : Entry) : Entry := ⟨e.instruction.mapHeredocs g, e.lines⟩

/-- A stage with its heredocs changed. -/
def Stage.mapHeredocs (s : Stage) : Stage := { s with body := s.body.map (Entry.mapHeredocs g) }

/-- An assembly with its heredocs changed. -/
def Assembly.mapHeredocs (a : Assembly) : Assembly :=
  { a with stages := a.stages.map (Stage.mapHeredocs g) }

/-- A place with its heredocs changed. -/
def Progress.mapHeredocs (p : Progress) : Progress :=
  { p with
    assembly := p.assembly.mapHeredocs g
    globals := p.globals.map (Entry.mapHeredocs g) }

/-- What becomes of a place, with its heredocs changed. -/
def Advance.mapHeredocs (r : Advance) : Advance := (r.1.mapHeredocs g, r.2)

/-- A document with its heredocs changed. -/
def Document.mapHeredocs (d : Document) : Document :=
  { d with
    globals := d.globals.map (Entry.mapHeredocs g)
    stages := d.stages.map (Stage.mapHeredocs g) }

/-! ## Stages -/

theorem Stage.entries_mapHeredocs (s : Stage) :
    (s.mapHeredocs g).entries = s.entries.map (Entry.mapHeredocs g) := rfl

namespace Assembly

variable (a : Assembly)

theorem aliases_mapHeredocs : (a.mapHeredocs g).aliases = a.aliases := by
  rw [aliases, mapHeredocs, Draft.toList_map, List.map_map]
  rfl

theorem hasStage_mapHeredocs : (a.mapHeredocs g).hasStage = a.hasStage := by
  rw [hasStage, mapHeredocs, Draft.isEmpty_map, hasStage]

theorem stageFor_mapHeredocs (base : BaseImage) (lines : LineSpan) :
    (a.mapHeredocs g).stageFor base lines = (a.stageFor base lines).mapHeredocs g := by
  have hsize : (a.mapHeredocs g).stages.size = a.stages.size := by
    simp [mapHeredocs, Draft.size]
  have hbase : (a.mapHeredocs g).resolveBase base.image = a.resolveBase base.image := by
    rw [resolveBase, resolveBase, aliases_mapHeredocs]
  rw [stageFor, stageFor, hsize, hbase]
  rfl

theorem openStage_mapHeredocs (base : BaseImage) (lines : LineSpan) :
    (a.mapHeredocs g).openStage base lines = (a.openStage base lines).map (mapHeredocs g) := by
  have htaken : (a.mapHeredocs g).takenName? base = a.takenName? base := by
    rw [takenName?, takenName?, aliases_mapHeredocs]
  cases hname : a.takenName? base with
  | some name =>
    rw [openStage, openStage, htaken, hname]
    rfl
  | none =>
    rw [openStage_eq_ok_iff.mpr ⟨htaken.trans hname, rfl⟩, openStage_eq_ok_iff.mpr ⟨hname, rfl⟩]
    show Except.ok _ = Except.ok (mapHeredocs g _)
    rw [stageFor_mapHeredocs, mapHeredocs, mapHeredocs, Draft.map_begin]
    rfl

theorem push_mapHeredocs (e : Entry) :
    (a.mapHeredocs g).push (e.mapHeredocs g) = (a.push e).map (mapHeredocs g) := by
  have hadd : ∀ s : Stage, Stage.mapHeredocs g (Stage.add e s) =
      Stage.add (e.mapHeredocs g) (s.mapHeredocs g) := by
    intro s
    simp [Stage.mapHeredocs, Stage.add]
  have hkeyword : (e.mapHeredocs g).keyword = e.keyword := e.instruction.keyword_mapHeredocs g
  rw [push, push, hasStage_mapHeredocs]
  split
  · show Except.ok _ = Except.ok (mapHeredocs g _)
    rw [mapHeredocs, mapHeredocs, Draft.map_modify hadd]
  · rw [hkeyword]
    rfl

theorem lateFailures_mapHeredocs : (a.mapHeredocs g).lateFailures = a.lateFailures := by
  rw [lateFailures, aliases_mapHeredocs]
  rfl

theorem finish_mapHeredocs (scope : Scope) :
    (a.mapHeredocs g).finish scope = (a.finish scope).map (Stage.mapHeredocs g) := by
  rw [finish, finish, mapHeredocs, Draft.toList_map, List.map_map, List.map_map]
  rfl

end Assembly

/-! ## Lints -/

namespace Lint

/-- Instructions are looked for by their keywords. -/
theorem filter_mapHeredocs (k : Keyword) (es : List Entry) :
    (es.map (Entry.mapHeredocs g)).filter (·.keyword == k) =
      (es.filter (·.keyword == k)).map (Entry.mapHeredocs g) := by
  rw [List.filter_map]
  refine congrArg (List.map _) (List.filter_congr fun e _ => ?_)
  show ((e.mapHeredocs g).keyword == k) = (e.keyword == k)
  rw [Entry.keyword, Entry.mapHeredocs, Instruction.keyword_mapHeredocs]
  rfl

theorem superseded_mapHeredocs (s : Stage) (k : Keyword) :
    superseded (s.mapHeredocs g) k = superseded s k := by
  rw [superseded, superseded, Stage.entries_mapHeredocs, filter_mapHeredocs, ← List.map_dropLast,
    List.map_map]
  rfl

theorem deprecated_mapHeredocs (s : Stage) : deprecated (s.mapHeredocs g) = deprecated s := by
  rw [deprecated, deprecated, Stage.entries_mapHeredocs, filter_mapHeredocs, List.map_map]
  rfl

theorem triggers_mapHeredocs (s : Stage) : triggers (s.mapHeredocs g) = triggers s := by
  rw [triggers, triggers, Stage.entries_mapHeredocs, filter_mapHeredocs, List.map_map]
  rfl

theorem ofStage_mapHeredocs (skipped : List Text) (s : Stage) :
    ofStage skipped (s.mapHeredocs g) = ofStage skipped s := by
  have hsuperseded : superseded (s.mapHeredocs g) = superseded s :=
    funext (superseded_mapHeredocs g s)
  rw [ofStage, ofStage, hsuperseded, deprecated_mapHeredocs]
  rfl

/-- **No rule looks at heredocs.** -/
theorem run_mapHeredocs (skipped : List Text) (stages : List Stage) :
    run skipped (stages.map (Stage.mapHeredocs g)) = run skipped stages := by
  have htriggers : ((stages.getLast?.map (Stage.mapHeredocs g)).map triggers) =
      stages.getLast?.map triggers := by
    rw [Option.map_map]
    exact congrArg (Option.map · stages.getLast?) (funext (triggers_mapHeredocs g))
  have hstages : (stages.map (Stage.mapHeredocs g)).flatMap (ofStage skipped) =
      stages.flatMap (ofStage skipped) := by
    rw [List.flatMap_map]
    exact List.flatMap_congr fun s _ => ofStage_mapHeredocs g skipped s
  rw [run, run, hstages, List.getLast?_map, htriggers]

end Lint

/-! ## Lines -/

namespace Progress

variable (settings : Settings) (p : Progress)

theorem context_mapHeredocs : (p.mapHeredocs g).context settings = p.context settings := by
  have haliases : (p.mapHeredocs g).assembly.aliases = p.assembly.aliases :=
    p.assembly.aliases_mapHeredocs g
  rw [context, context, haliases]
  rfl

theorem recover_mapHeredocs (f : Failure) :
    (p.mapHeredocs g).recover settings f = (p.recover settings f).mapHeredocs g := by
  rw [recover, recover]
  split
  · rfl
  · rfl

theorem openStage_mapHeredocs (base : BaseImage) (lines : LineSpan) :
    (p.mapHeredocs g).openStage settings base lines =
      (p.openStage settings base lines).mapHeredocs g := by
  have hopen : ∀ (q : Progress) (b : BaseImage), (q.mapHeredocs g).assembly.openStage b lines =
      (q.assembly.openStage b lines).map (Assembly.mapHeredocs g) :=
    fun q b => q.assembly.openStage_mapHeredocs g b lines
  rw [openStage, openStage, hopen]
  cases p.assembly.openStage base lines with
  | ok a => rfl
  | error f =>
    dsimp only [Except.map]
    rw [recover_mapHeredocs]
    rcases p.recover settings f with ⟨q, _ | f⟩
    · dsimp only [Advance.mapHeredocs]
      rw [hopen]
      cases q.assembly.openStage { base with stageName := none } lines with
      | ok a => rfl
      | error f => rfl
    · rfl

theorem declare_mapHeredocs (sc : Scope) (index : Nat) (i : Instruction) :
    declare sc index (i.mapHeredocs g) = declare sc index i := by
  cases i with
  | step s => cases s <;> rfl
  | _ => rfl

theorem place_mapHeredocs (index : Nat) (e : Entry) :
    (p.mapHeredocs g).place settings index (e.mapHeredocs g) =
      (p.place settings index e).mapHeredocs g := by
  by_cases hbase : ∃ base, e.instruction = .fromImage base
  · obtain ⟨base, hbase⟩ := hbase
    have hbase' : (e.mapHeredocs g).instruction = .fromImage base := by
      rw [Entry.mapHeredocs, hbase]
      rfl
    rw [place, place, hbase, hbase']
    exact openStage_mapHeredocs g settings p base e.lines
  · have hne : ∀ base, e.instruction ≠ .fromImage base := fun base h => hbase ⟨base, h⟩
    have hkeyword : (e.mapHeredocs g).keyword = e.keyword := e.instruction.keyword_mapHeredocs g
    have hne' : ∀ base, (e.mapHeredocs g).instruction ≠ .fromImage base := by
      intro base h
      obtain ⟨b, hb⟩ := Instruction.keyword_eq_fromImage_iff.mp
        (hkeyword.symm.trans (by rw [Entry.keyword, h]; rfl))
      exact hne b hb
    have hstage : (p.mapHeredocs g).assembly.hasStage = p.assembly.hasStage :=
      p.assembly.hasStage_mapHeredocs g
    have hpush : (p.mapHeredocs g).assembly.push (e.mapHeredocs g) =
        (p.assembly.push e).map (Assembly.mapHeredocs g) := p.assembly.push_mapHeredocs g e
    have hdeclare : declare (p.mapHeredocs g).scope index (e.mapHeredocs g).instruction =
        declare p.scope index e.instruction := declare_mapHeredocs g p.scope index e.instruction
    rw [place_of_not_from _ _ hne, place_of_not_from _ _ hne', hstage, hkeyword, hpush, hdeclare]
    split
    · simp [Advance.mapHeredocs, mapHeredocs]
    · cases p.assembly.push e with
      | ok a => rfl
      | error f => rfl

theorem absorb_mapHeredocs (index : Nat) (lines : LineSpan) (o : Outcome Instruction) :
    absorb settings (p.mapHeredocs g) index lines
        ⟨o.result.map (Instruction.mapHeredocs g), o.references⟩ =
      (absorb settings p index lines o).mapHeredocs g := by
  obtain ⟨result, references⟩ := o
  cases result with
  | error f => rfl
  | ok i =>
    exact place_mapHeredocs g settings
      (p.report ((references.eraseDups).map (undeclaredWarning lines))) index ⟨i, lines⟩

/-- **A line with its heredocs changed is dealt with as the line is.** -/
theorem advance_mapHeredocs {l l' : LogicalLine} (h : l.Changed g l') :
    (p.mapHeredocs g).advance settings l' = (p.advance settings l).mapHeredocs g := by
  have htake : (p.mapHeredocs g).take settings l' = (p.take settings l).mapHeredocs g := by
    rw [take_eq, take_eq, context_mapHeredocs, Grammar.line_of_changed g h, Grammar.map_run,
      h.lines]
    exact absorb_mapHeredocs g settings { p with count := p.count + 1 } p.count l.lines _
  rw [advance, advance, htake]
  rcases p.take settings l with ⟨q, _ | f⟩
  · rfl
  · exact recover_mapHeredocs g settings q f

/-- **Lines with their heredocs changed are dealt with as the lines are.** -/
theorem takeAll_mapHeredocs {ls ls' : List LogicalLine}
    (h : List.Forall₂ (LogicalLine.Changed g) ls ls') :
    (p.mapHeredocs g).takeAll settings ls' = (p.takeAll settings ls).mapHeredocs g := by
  induction h generalizing p with
  | nil => rfl
  | @cons l l' ls ls' hl _ ih =>
    rw [takeAll_cons, takeAll_cons, advance_mapHeredocs g settings p hl]
    rcases p.advance settings l with ⟨q, _ | f⟩
    · exact ih q
    · rfl

theorem recoverAll_mapHeredocs (fs : List Failure) :
    (p.mapHeredocs g).recoverAll settings fs = (p.recoverAll settings fs).mapHeredocs g := by
  induction fs generalizing p with
  | nil => rfl
  | cons f fs ih =>
    rw [recoverAll_cons, recoverAll_cons, recover_mapHeredocs]
    rcases p.recover settings f with ⟨q, _ | f⟩
    · exact ih q
    · rfl

/-! ## Documents -/

/-- What is concluded at a place with its heredocs changed. -/
theorem conclude_mapHeredocs (directives : Directives) (r : Advance) :
    conclude directives (r.mapHeredocs g) =
      (conclude directives r).map (Document.mapHeredocs g) := by
  rcases r with ⟨p, _ | f⟩
  · have hfinish : (p.mapHeredocs g).assembly.finish (p.mapHeredocs g).scope =
        (p.assembly.finish p.scope).map (Stage.mapHeredocs g) :=
      p.assembly.finish_mapHeredocs g p.scope
    have hcheck : checkDocument p.count ((p.assembly.finish p.scope).map (Stage.mapHeredocs g)) =
        checkDocument p.count (p.assembly.finish p.scope) := by
      rw [checkDocument, checkDocument, List.isEmpty_map]
    have hcount : (p.mapHeredocs g).count = p.count := rfl
    dsimp only [conclude, Advance.mapHeredocs]
    rw [hfinish, hcount, hcheck, Lint.run_mapHeredocs]
    cases checkDocument p.count (p.assembly.finish p.scope) with
    | none => rfl
    | some f => rfl
  · rfl

theorem finish_mapHeredocs (directives : Directives) :
    (p.mapHeredocs g).finish settings directives =
      (p.finish settings directives).map (Document.mapHeredocs g) := by
  have hlate : (p.mapHeredocs g).assembly.lateFailures = p.assembly.lateFailures :=
    p.assembly.lateFailures_mapHeredocs g
  rw [finish_eq, finish_eq, hlate, recoverAll_mapHeredocs, conclude_mapHeredocs]

end Progress

namespace Document

/-- **A file with its heredocs changed is read as the file is**, to the same failure or to the
document with its heredocs changed. -/
theorem complete_mapHeredocs (settings : Settings) {layout layout' : Layout}
    (h : Layout.Changed g layout layout') :
    complete settings layout' ((start layout').takeAll settings layout'.lines) =
      (complete settings layout ((start layout).takeAll settings layout.lines)).map
        (Document.mapHeredocs g) := by
  have hstart : start layout' = (start layout).mapHeredocs g := by
    rw [start, h.preamble]
    rfl
  rw [hstart, Progress.takeAll_mapHeredocs g settings _ h.lines]
  rcases (start layout).takeAll settings layout.lines with ⟨p, _ | f⟩
  · dsimp only [Advance.mapHeredocs, complete]
    rw [h.failure, h.preamble]
    cases layout.failure with
    | some f => rfl
    | none => exact p.finish_mapHeredocs g settings _
  · rfl

/-! ## Bodies -/

/-- **The bodies of heredocs are inert.**  The heredocs of the logical lines of a file are captured
in it, and maybe further ones of a line that cannot be read to its end.  If other lines are put in
place of the body of any of them, as many as it has and none of which ends the heredoc, then the
file is read to the same failure with the same diagnostics, or to the same document except that this
heredoc has the body that these lines make up. -/
theorem readFully_rewrite (settings : Settings) (ts : List Text) :
    (∀ l ∈ (Layout.read settings.escapeDirective ts).lines, ∀ x ∈ l.heredocs,
        Layout.Captures settings.escapeDirective ts x) ∧
      ∀ x, Layout.Captures settings.escapeDirective ts x →
        ∀ us : List Text, x.lines.first + us.length + 1 = x.lines.last →
          (∀ t ∈ us, x.marker.isTerminator (PhysicalLine.dropReturn t) = false) →
            readFully settings (x.rewrite us ts) =
              (readFully settings ts).map (mapHeredocs (x.withBody (x.bodyOf us))) := by
  refine ⟨fun l hl x hx => Layout.captures_of_mem hl hx, fun x hx us hlength hus => ?_⟩
  rw [readFully_eq, readFully_eq]
  exact complete_mapHeredocs _ settings (Layout.changed_of_rewrite hx hlength hus)

/-- The second heredoc of a trigger, with lines in its place that would open a stage, announce a
heredoc, go on, set the escape character and end the first heredoc. -/
theorem readFully_rewrite_trigger :
    let ts := ["FROM alpine".toList, "ONBUILD COPY <<A <<-'B' /d/".toList, "x".toList, "A".toList,
      "\ty".toList, "z".toList, "  ".toList, "\tB ".toList, "RUN echo".toList]
    let x : Heredoc := ⟨"B".toList, true, true, "y\nz\n  ".toList, ⟨4, 8, by omega⟩⟩
    let us := ["\tFROM $v <<C \\".toList, "# escape=\x60".toList, "A".toList]
    let body := "FROM $v <<C \\\n# escape=\x60\nA".toList
    (∃ l ∈ (Layout.read true ts).lines, x ∈ l.heredocs) ∧
      (∃ d, readFully {} ts = .ok d ∧ ∃ s ∈ d.stages, ∃ e ∈ s.entries, x ∈ e.instruction.heredocs) ∧
        readFully {} (x.rewrite us ts) = (readFully {} ts).map (mapHeredocs (x.withBody body)) := by
  intro ts x us body
  have hmem : ∃ l ∈ (Layout.read true ts).lines, x ∈ l.heredocs := by decide +kernel
  have hshown : ((readFully {} ts).map fun d => decide
      (∃ s ∈ d.stages, ∃ e ∈ s.entries, x ∈ e.instruction.heredocs)).toOption = some true := by
    decide +kernel
  obtain ⟨l, hl, hx⟩ := hmem
  obtain ⟨hcaptures, hrewrite⟩ := readFully_rewrite {} ts
  refine ⟨⟨l, hl, hx⟩, ?_, ?_⟩
  · rcases hread : readFully {} ts with f | d
    · rw [hread] at hshown
      cases hshown
    · rw [hread] at hshown
      exact ⟨d, rfl, of_decide_eq_true (Option.some.inj hshown)⟩
  · exact hrewrite x (hcaptures l hl x hx) us (by decide) (by decide)

end Document

end Containerfile
