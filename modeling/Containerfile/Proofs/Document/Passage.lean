import Containerfile.Proofs.Document.Run
import Containerfile.Proofs.Document.Tolerance
import Containerfile.Proofs.Grammar.Blame
import Containerfile.Proofs.Grammar.Stages

/-! # Readings line by line

With any settings each logical line either becomes an instruction or leaves a failure behind, and
once in a while does both.  A `Trace` is what is left of one line, and `Progress.Handled` lists the
three ways in which a line is dealt with: it is taken; it is a FROM whose name is taken, and opens a
stage without a name; or it is dropped.  The last two need a reading that records failures.

`Progress.Passage` strings such steps together.  A reading that yields a document is a passage over
all logical lines (`Document.passage_of_readLines`); its entries and findings are those of the
traces in their order (`Progress.Passage.entries`, `Progress.Passage.diagnostics`), its stages stay
as they were opened (`Progress.Passage.heads`), and what every step keeps, it keeps
(`Progress.Passage.invariant`). -/
namespace Containerfile

/-- What is left of a logical line: the entry that it became, if it became one, and the findings. -/
structure Trace where
  line : LogicalLine
  entry : Option Entry
  found : List Diagnostic

namespace Progress

variable {settings : Settings} {p q r : Progress} {index : Nat} {e : Entry} {l : LogicalLine}
  {t : Trace} {ts : List Trace}

/-! ## One line -/

/-- A place where a line was counted and something was found on it. -/
def past (p : Progress) (found : List Diagnostic) : Progress :=
  { p with count := p.count + 1 }.report found

/-- The warnings about the undeclared names of a line. -/
def warnings (settings : Settings) (p : Progress) (l : LogicalLine) : List Diagnostic :=
  (Grammar.line l (p.context settings)).undeclared.map (undeclaredWarning l.lines)

/-- The three ways in which a logical line is dealt with so that the reading goes on. -/
inductive Handled (settings : Settings) (p : Progress) : Trace → Progress → Prop
  | taken {l : LogicalLine} {i : Instruction} {q : Progress}
      (hi : (Grammar.line l (p.context settings)).result = .ok i)
      (hq : Placed (p.past (p.warnings settings l)) p.count ⟨i, l.lines⟩ q) :
      Handled settings p ⟨l, some ⟨i, l.lines⟩, p.warnings settings l⟩ q
  | renamed {l : LogicalLine} {base : BaseImage} {name : Text} {a : Assembly}
      (hs : settings.bestEffort = true)
      (hi : (Grammar.line l (p.context settings)).result = .ok (.fromImage base))
      (hname : p.assembly.takenName? base = some name)
      (ha : p.assembly.openStage { base with stageName := none } l.lines = .ok a) :
      Handled settings p
        ⟨l, some ⟨.fromImage { base with stageName := none }, l.lines⟩,
          p.warnings settings l ++ [.ofFailure (.duplicateAlias name l.lines)]⟩
        ((p.past (p.warnings settings l ++
          [.ofFailure (.duplicateAlias name l.lines)])).opened a)
  | dropped {l : LogicalLine} {f : Failure} (hs : settings.bestEffort = true)
      (hf : f.lines = some l.lines) :
      Handled settings p ⟨l, none, p.warnings settings l ++ [.ofFailure f]⟩
        (p.past (p.warnings settings l ++ [.ofFailure f]))

/-- Findings about a line are recorded one after the other. -/
theorem report_past (p : Progress) (ds es : List Diagnostic) :
    (p.past ds).report es = p.past (ds ++ es) := by
  simp [past, report]

/-- A failure after which the reading goes on was recorded. -/
theorem recover_eq_iff {f : Failure} :
    p.recover settings f = (q, none) ↔
      settings.bestEffort = true ∧ f.recoverable = true ∧ q = p.report [.ofFailure f] := by
  rw [recover, tolerates]
  by_cases ht : (settings.bestEffort && f.recoverable) = true
  · rw [if_pos ht]
    rw [Bool.and_eq_true] at ht
    constructor
    · intro h
      cases h
      exact ⟨ht.1, ht.2, rfl⟩
    · rintro ⟨-, -, rfl⟩
      rfl
  · rw [if_neg ht]
    constructor
    · intro h
      cases h
    · rintro ⟨hs, hf, -⟩
      rw [hs, hf] at ht
      exact absurd rfl ht

/-- A failure of a line that is recorded drops the line. -/
theorem handled_of_recover {f : Failure} (hf : f.lines = some l.lines)
    (h : (p.past (p.warnings settings l)).recover settings f = (q, none)) :
    ∃ t, t.line = l ∧ Handled settings p t q := by
  obtain ⟨hs, -, rfl⟩ := recover_eq_iff.mp h
  rw [report_past]
  exact ⟨_, rfl, Handled.dropped hs hf⟩

/-- A FROM that was read is dealt with where the reading goes on. -/
theorem handled_of_openStage {base : BaseImage}
    (hi : (Grammar.line l (p.context settings)).result = .ok (.fromImage base))
    (h : settle settings ((p.past (p.warnings settings l)).openStage settings base l.lines) =
      (q, none)) :
    ∃ t, t.line = l ∧ Handled settings p t q := by
  rcases openStage_cases settings (p.past (p.warnings settings l)) base l.lines with
    ⟨a, ha, hopen⟩ | ⟨f, hf, -, ⟨-, hopen⟩ | ⟨hs, a, hopen, ha⟩⟩
  · rw [hopen] at h
    cases h
    exact ⟨_, rfl, Handled.taken hi (Placed.opens rfl ha)⟩
  · obtain ⟨name, -, rfl⟩ := failure_of_openStage hf
    rw [hopen] at h
    exact handled_of_recover rfl h
  · obtain ⟨name, hname, rfl⟩ := failure_of_openStage hf
    rw [hopen, report_past] at h
    cases h
    exact ⟨_, rfl, Handled.renamed hs hi hname ha⟩

/-- Any other instruction that was read is dealt with where the reading goes on. -/
theorem handled_of_place {i : Instruction}
    (hi : (Grammar.line l (p.context settings)).result = .ok i)
    (hbase : ∀ base, i ≠ .fromImage base)
    (h : settle settings
      ((p.past (p.warnings settings l)).place settings p.count ⟨i, l.lines⟩) = (q, none)) :
    ∃ t, t.line = l ∧ Handled settings p t q := by
  rw [place_of_not_from settings _ hbase] at h
  split at h
  · rename_i hglobal
    cases h
    rw [Bool.and_eq_true, Bool.not_eq_true', beq_iff_eq] at hglobal
    exact ⟨_, rfl, Handled.taken hi (Placed.declares hbase hglobal.1 hglobal.2)⟩
  · cases ha : (p.past (p.warnings settings l)).assembly.push ⟨i, l.lines⟩ with
    | ok a =>
      rw [ha] at h
      cases h
      exact ⟨_, rfl, Handled.taken hi (Placed.joins hbase ha)⟩
    | error f =>
      rw [ha] at h
      refine handled_of_recover ?_ h
      -- what cannot be pushed stands before the first stage
      rw [Assembly.push] at ha
      split at ha
      · cases ha
      · cases ha
        rfl

/-- **A line after which the reading goes on is dealt with in one of the three ways.** -/
theorem handled_of_advance (h : p.advance settings l = (q, none)) :
    ∃ t, t.line = l ∧ Handled settings p t q := by
  rw [advance, take_eq, absorb] at h
  rcases hresult : (Grammar.line l (p.context settings)).result with f | i
  · simp only [hresult] at h
    exact handled_of_recover (Grammar.blames_line l _ f hresult) h
  · simp only [hresult] at h
    by_cases hbase : ∃ base, i = .fromImage base
    · obtain ⟨base, rfl⟩ := hbase
      exact handled_of_openStage hresult h
    · exact handled_of_place hresult (fun base hi => hbase ⟨base, hi⟩) h

/-- A line that is dealt with leaves the place as it was but for what was found, or its entry fits
the stages before it and is taken. -/
theorem Handled.landed (h : Handled settings p t q) :
    (t.entry = none ∧ q = p.past t.found) ∨
      ∃ e, t.entry = some e ∧ e.instruction.Fits p.assembly.aliases ∧
        Placed (p.past t.found) p.count e q := by
  cases h with
  | taken hi hq => exact Or.inr ⟨_, rfl, Grammar.fits_line _ _ hi, hq⟩
  | renamed hs hi hname ha =>
    refine Or.inr ⟨_, rfl, ⟨?_, ?_⟩, Placed.opens rfl ha⟩
    · intro base hbase name hstage
      cases hbase
      cases hstage
    · intro index name hsource
      cases hsource
  | dropped hs hf => exact Or.inl ⟨rfl, rfl⟩

/-! ## All lines -/

/-- Logical lines that are dealt with one after the other. -/
inductive Passage (settings : Settings) : Progress → List Trace → Progress → Prop
  | nil (p : Progress) : Passage settings p [] p
  | cons {p q r : Progress} {t : Trace} {ts : List Trace} (ht : Handled settings p t q)
      (hr : Passage settings q ts r) : Passage settings p (t :: ts) r

/-- **Lines that are read to their end are dealt with one after the other.** -/
theorem passage_of_takeAll {ls : List LogicalLine} (h : p.takeAll settings ls = (r, none)) :
    ∃ ts, ts.map Trace.line = ls ∧ Passage settings p ts r := by
  induction ls generalizing p with
  | nil =>
    cases h
    exact ⟨[], rfl, Passage.nil _⟩
  | cons l ls ih =>
    rw [takeAll_cons] at h
    rcases hq : p.advance settings l with ⟨q, _ | f⟩
    · rw [hq] at h
      obtain ⟨t, rfl, ht⟩ := handled_of_advance hq
      obtain ⟨ts, rfl, hts⟩ := ih h
      exact ⟨t :: ts, rfl, Passage.cons ht hts⟩
    · rw [hq] at h
      cases h

/-- What holds at the start of a passage and is kept by every step holds at its end. -/
theorem Passage.invariant {I : Progress → Prop} (h : Passage settings p ts r)
    (hstep : ∀ p q t, Handled settings p t q → I p → I q) (hp : I p) : I r := by
  induction h with
  | nil p => exact hp
  | cons ht _ ih => exact ih (hstep _ _ _ ht hp)

/-- What holds of every line that is dealt with holds of the lines of a passage. -/
theorem Passage.forall_mem {P : Trace → Prop} (h : Passage settings p ts r)
    (hstep : ∀ p q t, Handled settings p t q → P t) : ∀ t ∈ ts, P t := by
  induction h with
  | nil p => simp
  | cons ht _ ih => exact List.forall_mem_cons.mpr ⟨hstep _ _ _ ht, ih⟩

theorem Handled.diagnostics (h : Handled settings p t q) :
    q.diagnostics = p.diagnostics ++ t.found := by
  rcases h.landed with ⟨-, rfl⟩ | ⟨e, -, -, hq⟩
  · rfl
  · cases hq with
    | opens _ _ => rfl
    | declares _ _ _ => rfl
    | joins _ _ => rfl

theorem Handled.entries (h : Handled settings p t q) :
    q.entries = p.entries ++ t.entry.toList := by
  rcases h.landed with ⟨hnone, rfl⟩ | ⟨e, hsome, -, hq⟩
  · rw [hnone]
    exact (List.append_nil _).symm
  · rw [hsome, hq.entries]
    rfl

theorem Placed.count (h : Placed p index e q) : q.count = p.count := by
  cases h with
  | opens _ _ => rfl
  | declares _ _ _ => rfl
  | joins _ _ => rfl

/-- Every line that is dealt with is counted. -/
theorem Handled.count (h : Handled settings p t q) : q.count = p.count + 1 := by
  rcases h.landed with ⟨-, rfl⟩ | ⟨e, -, -, hq⟩
  · rfl
  · exact hq.count

/-- A reading that records no failure drops no line. -/
theorem Handled.strict (h : Handled settings p t q) (hs : settings.bestEffort = false) :
    ∃ e, t.entry = some e := by
  cases h with
  | taken hi hq => exact ⟨_, rfl⟩
  | renamed hb hi hname ha =>
    rw [hs] at hb
    cases hb
  | dropped hb hf =>
    rw [hs] at hb
    cases hb

theorem Passage.diagnostics (h : Passage settings p ts r) :
    r.diagnostics = p.diagnostics ++ ts.flatMap Trace.found := by
  induction h with
  | nil p => simp
  | cons ht _ ih => simp [ih, ht.diagnostics]

/-- **The entries after a passage are those before it and those that its lines became.** -/
theorem Passage.entries (h : Passage settings p ts r) :
    r.entries = p.entries ++ ts.filterMap Trace.entry := by
  induction h with
  | nil p => simp
  | @cons p q r t ts ht _ ih =>
    rw [ih, ht.entries, List.append_assoc, List.filterMap_cons]
    cases t.entry with
    | none => rfl
    | some e => rfl

/-- A line that is dealt with opens stages and changes none as it was opened. -/
theorem Handled.heads (h : Handled settings p t q) : p.assembly.heads <+: q.assembly.heads := by
  rcases h.landed with ⟨-, rfl⟩ | ⟨e, -, -, hq⟩
  · exact List.prefix_rfl
  · cases hq with
    | opens hi ha => exact ⟨_, (Assembly.heads_of_openStage ha).symm⟩
    | declares hi hs hk => exact List.prefix_rfl
    | joins hi ha =>
      have hsame := Assembly.heads_of_push ha
      exact ⟨[], by rw [List.append_nil]; exact hsame.symm⟩

/-- **Stages stay as they were opened.** -/
theorem Passage.heads (h : Passage settings p ts r) : p.assembly.heads <+: r.assembly.heads := by
  induction h with
  | nil p => exact List.prefix_rfl
  | cons ht _ ih => exact ht.heads.trans ih

/-! ## Documents -/

/-- Failures that show only at the end are all recorded, or there are none. -/
theorem recoverAll_eq {fs : List Failure} (h : p.recoverAll settings fs = (r, none)) :
    (settings.bestEffort = false → fs = []) ∧ r = p.report (fs.map .ofFailure) := by
  induction fs generalizing p with
  | nil =>
    cases h
    simp [report]
  | cons f fs ih =>
    rw [recoverAll_cons] at h
    rcases hq : p.recover settings f with ⟨q, _ | g⟩
    · rw [hq] at h
      obtain ⟨hs, -, rfl⟩ := recover_eq_iff.mp hq
      refine ⟨fun hstrict => ?_, ?_⟩
      · rw [hs] at hstrict
        cases hstrict
      · rw [(ih h).2]
        simp [report]
    · rw [hq] at h
      cases h

/-- The document at a place after the last line, with the failures that show only at the end. -/
def final (p : Progress) (directives : Directives) : Document :=
  (p.report (p.assembly.lateFailures.map .ofFailure)).document directives

variable {directives : Directives}

theorem stages_final : (p.final directives).stages = p.assembly.finish p.scope := rfl

theorem entries_final : (p.final directives).entries = p.entries := entries_document _ _

theorem diagnostics_final :
    (p.final directives).diagnostics =
      p.diagnostics ++ p.assembly.lateFailures.map .ofFailure ++
        Lint.run directives.skippedChecks (p.assembly.finish p.scope) := rfl

/-- What shows at the end is recorded before the document is put together. -/
theorem eq_final_of_finish {d : Document} (h : p.finish settings directives = .ok d) :
    (settings.bestEffort = false → p.assembly.lateFailures = []) ∧
      checkDocument p.count (p.assembly.finish p.scope) = none ∧ d = p.final directives := by
  rw [finish_eq] at h
  rcases hr : p.recoverAll settings p.assembly.lateFailures with ⟨r, _ | f⟩
  · obtain ⟨hstrict, rfl⟩ := recoverAll_eq hr
    rw [hr, conclude] at h
    refine ⟨hstrict, ?_⟩
    split at h
    · cases h
    · rename_i hcheck
      cases h
      exact ⟨hcheck, rfl⟩
  · rw [hr] at h
    cases h

end Progress

namespace Document

theorem ok_of_map {ε α β : Type} {x : Except ε α} {f : α → β} {b : β} (h : x.map f = .ok b) :
    ∃ a, x = .ok a ∧ f a = b := by
  cases x with
  | error e => cases h
  | ok a => exact ⟨a, rfl, Except.ok.inj h⟩

/-- A document is put together at the place after the last logical line. -/
theorem takeAll_of_readLines {settings : Settings} {texts : List Text} {d : Document}
    (h : readLines settings texts = .ok d) :
    ∃ p, (start (Layout.read settings.escapeDirective texts)).takeAll settings
        (Layout.read settings.escapeDirective texts).lines = (p, none) ∧
      p.finish settings (Layout.read settings.escapeDirective texts).preamble.directives =
        .ok d := by
  rw [readLines, readFully_eq] at h
  generalize Layout.read settings.escapeDirective texts = layout at *
  rcases hp : (start layout).takeAll settings layout.lines with ⟨p, _ | f⟩
  · refine ⟨p, rfl, ?_⟩
    rw [hp, complete] at h
    cases hfailure : layout.failure with
    | some f =>
      rw [hfailure] at h
      cases h
    | none =>
      rw [hfailure] at h
      cases hfinish : p.finish settings layout.preamble.directives with
      | error f =>
        rw [hfinish] at h
        cases h
      | ok e =>
        rw [hfinish] at h
        cases h
        rfl
  · rw [hp] at h
    cases h

/-- **A document comes of a passage over all logical lines.** -/
theorem passage_of_readLines {settings : Settings} {texts : List Text} {d : Document}
    (h : readLines settings texts = .ok d) :
    ∃ ts p, ts.map Trace.line = (Layout.read settings.escapeDirective texts).lines ∧
      Progress.Passage settings (start (Layout.read settings.escapeDirective texts)) ts p ∧
      (settings.bestEffort = false → p.assembly.lateFailures = []) ∧
      checkDocument p.count (p.assembly.finish p.scope) = none ∧
      d = p.final (Layout.read settings.escapeDirective texts).preamble.directives := by
  obtain ⟨p, hp, hfinish⟩ := takeAll_of_readLines h
  obtain ⟨ts, hlines, hpassage⟩ := Progress.passage_of_takeAll hp
  exact ⟨ts, p, hlines, hpassage, Progress.eq_final_of_finish hfinish⟩

end Document

end Containerfile
