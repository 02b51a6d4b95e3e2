import Containerfile.Proofs.Document.Passage
import Containerfile.Proofs.Line.Directives
import Containerfile.Proofs.Scope.History

/-! # What a failed reading has found

A reading that fails hands out everything that it found up to there.  First come the warnings about
the directives (`Layout.warnings_read`).  Then come the findings of the logical lines that it
reached: of each, the warnings about its undeclared names, also if it fails after them, and its
failure, if that is recorded (`Progress.found`).  One line adds these
(`Progress.diagnostics_advance`), so all lines do (`Progress.diagnostics_takeAll`), and what fails
after the last line adds nothing (`Progress.diagnostics_of_finish`).

Main statement: `Document.outcome_complete`. -/
namespace Containerfile

/-- The undeclared names of an outcome are those referred to, each once. -/
theorem Outcome.nodup_undeclared {α : Type} (o : Outcome α) :
    o.undeclared.Nodup ∧ ∀ name, name ∈ o.undeclared ↔ name ∈ o.references :=
  ⟨Layer.nodup_eraseDups _, fun _ => List.mem_eraseDups⟩

namespace Progress

variable {settings : Settings} {p q : Progress} {l : LogicalLine} {ls : List LogicalLine}

/-! ## The findings of lines -/

/-- The failure of a logical line, if it fails where no failure is recorded. -/
def failure? (settings : Settings) (p : Progress) (l : LogicalLine) : Option Failure :=
  (p.take (settings.recording false) l).2

/-- A failure as it is recorded, if it is. -/
def recorded (settings : Settings) (f : Option Failure) : List Diagnostic :=
  (f.filter (tolerates settings)).toList.map .ofFailure

/-- What is found on a logical line: its undeclared names, and its failure, if that is recorded. -/
def found (settings : Settings) (p : Progress) (l : LogicalLine) : List Diagnostic :=
  p.warnings settings l ++ recorded settings (p.failure? settings l)

/-- The logical lines that a reading reaches, each with the place before it: all up to the first one
that fails without being recorded. -/
def reached (settings : Settings) (p : Progress) : List LogicalLine → List (Progress × LogicalLine)
  | [] => []
  | l :: ls =>
    (p, l) ::
      match p.advance settings l with
      | (q, none) => reached settings q ls
      | (_, some _) => []

/-- Settings that say themselves whether failures are recorded. -/
theorem recording_self {b : Bool} (h : settings.bestEffort = b) :
    settings.recording b = settings := by
  cases h
  rfl

theorem diagnostics_recover (settings : Settings) (p : Progress) (f : Failure) :
    (p.recover settings f).1.diagnostics = p.diagnostics ++ recorded settings (some f) := by
  rw [recover, recorded]
  by_cases ht : tolerates settings f = true
  · rw [if_pos ht, Option.filter_some, if_pos ht]
    rfl
  · rw [if_neg ht, Option.filter_some, if_neg ht]
    exact (List.append_nil _).symm

theorem diagnostics_settle (settings : Settings) (a : Advance) :
    (settle settings a).1.diagnostics = a.1.diagnostics ++ recorded settings a.2 := by
  rcases a with ⟨q, _ | f⟩
  · exact (List.append_nil _).symm
  · exact diagnostics_recover settings q f

/-- Taking an instruction finds no more than the failure that it meets if nothing is recorded. -/
theorem diagnostics_place (settings : Settings) (p : Progress) (index : Nat) (e : Entry) :
    (settle settings (p.place settings index e)).1.diagnostics =
      p.diagnostics ++ recorded settings (p.place (settings.recording false) index e).2 := by
  cases hs : settings.bestEffort with
  | false =>
    have h := diagnostics_place_strict settings p index e
    rw [recording_self hs] at h ⊢
    rw [diagnostics_settle, h]
  | true =>
    rcases place_agrees settings p index e with h | ⟨f, a, hf, hstrict, htol⟩
    · rw [recording_self hs] at h
      rw [h, diagnostics_settle, diagnostics_place_strict]
    · rw [recording_self hs] at htol
      have ht : tolerates settings f = true := by rw [tolerates, hs, hf]; rfl
      rw [htol, hstrict, recorded, Option.filter_some, if_pos ht]
      rfl

/-- **A logical line adds its findings.** -/
theorem diagnostics_advance (settings : Settings) (p : Progress) (l : LogicalLine) :
    (p.advance settings l).1.diagnostics = p.diagnostics ++ p.found settings l := by
  have hcontext : p.context (settings.recording false) = p.context settings := rfl
  rw [advance, found, failure?, take_eq, take_eq, hcontext, absorb, absorb]
  cases (Grammar.line l (p.context settings)).result with
  | error f =>
    dsimp only
    rw [diagnostics_settle, ← List.append_assoc]
    rfl
  | ok i =>
    dsimp only
    rw [diagnostics_place, ← List.append_assoc]
    rfl

/-- **All logical lines that are reached add their findings.** -/
theorem diagnostics_takeAll (settings : Settings) (p : Progress) (ls : List LogicalLine) :
    (p.takeAll settings ls).1.diagnostics =
      p.diagnostics ++ (reached settings p ls).flatMap fun x => x.1.found settings x.2 := by
  induction ls generalizing p with
  | nil => exact (List.append_nil _).symm
  | cons l ls ih =>
    have hl := diagnostics_advance settings p l
    rw [takeAll_cons, reached, List.flatMap_cons]
    rcases hq : p.advance settings l with ⟨q, _ | f⟩
    · rw [hq] at hl
      dsimp only [Advance.andThen]
      rw [ih q, hl, List.append_assoc]
    · rw [hq] at hl
      exact hl.trans (by rw [List.flatMap_nil, List.append_nil])

/-! ## The end -/

/-- Failures that can all be recorded are. -/
theorem recoverAll_of_recoverable (hs : settings.bestEffort = true) {fs : List Failure}
    (hfs : ∀ f ∈ fs, f.recoverable = true) (p : Progress) :
    p.recoverAll settings fs = (p.report (fs.map .ofFailure), none) := by
  induction fs generalizing p with
  | nil => simp [recoverAll, report]
  | cons f fs ih =>
    rw [List.forall_mem_cons] at hfs
    rw [recoverAll_cons, recover_of_recoverable p hs hfs.1, Advance.andThen, ih hfs.2]
    simp [report]

theorem recoverable_of_mem_lateFailures {a : Assembly} {f : Failure} (h : f ∈ a.lateFailures) :
    f.recoverable = true := by
  obtain ⟨u, -, rfl⟩ := List.mem_map.mp h
  rfl

/-- Before the first stage no base is looked at again. -/
theorem lateFailures_of_nil {a : Assembly} (h : a.stages.toList = []) : a.lateFailures = [] := by
  have haliases : a.aliases = [] := by rw [Assembly.aliases, h, List.map_nil]
  rw [Assembly.lateFailures, List.map_eq_nil_iff, List.filter_eq_nil_iff, haliases]
  intro u _
  exact Bool.false_ne_true

/-- A stage stands on a line that was counted. -/
def Counted (p : Progress) : Prop := p.count = 0 → p.assembly.stages.toList = []

theorem Passage.counted {ts : List Trace} {r : Progress} (h : Passage settings p ts r)
    (hp : p.Counted) : r.Counted := by
  refine h.invariant (fun p q t ht _ hcount => ?_) hp
  rw [ht.count] at hcount
  cases hcount

/-- A document is refused for want of stages. -/
theorem stages_of_checkDocument {f : Failure} (hp : p.Counted)
    (h : checkDocument p.count (p.assembly.finish p.scope) = some f) :
    p.assembly.stages.toList = [] := by
  rw [checkDocument] at h
  split at h
  · rename_i hcount
    exact hp hcount
  · split at h
    · rename_i hempty
      rw [Assembly.finish, List.isEmpty_iff, List.map_eq_nil_iff] at hempty
      exact hempty
    · cases h

/-- A document that is refused comes with what was found before. -/
theorem eq_of_conclude {directives : Directives} {a : Advance} {f : Failure}
    {ds : List Diagnostic} (h : conclude directives a = .error (f, ds)) :
    ds = a.1.diagnostics ∧
      (a.2 = none → checkDocument a.1.count (a.1.assembly.finish a.1.scope) = some f) := by
  rcases a with ⟨p, _ | g⟩
  · rw [conclude] at h
    split at h
    · rename_i g hcheck
      cases h
      exact ⟨rfl, fun _ => hcheck⟩
    · cases h
  · cases h
    refine ⟨rfl, fun hnone => ?_⟩
    cases hnone

/-- **What fails after the last line adds nothing to what was found.** -/
theorem diagnostics_of_finish {directives : Directives} {f : Failure} {ds : List Diagnostic}
    (hp : p.Counted) (h : p.finish settings directives = .error (f, ds)) : ds = p.diagnostics := by
  rw [finish_eq] at h
  obtain ⟨rfl, hcheck⟩ := eq_of_conclude h
  cases hs : settings.bestEffort with
  | false =>
    have hstrict := diagnostics_recoverAll_strict settings p p.assembly.lateFailures
    rw [recording_self hs] at hstrict
    exact hstrict
  | true =>
    -- all is recorded, so a stage is missing, and then there was nothing to record
    rw [recoverAll_of_recoverable hs fun f hf => recoverable_of_mem_lateFailures hf] at hcheck ⊢
    have hnil := stages_of_checkDocument hp (hcheck rfl)
    rw [lateFailures_of_nil hnil]
    exact List.append_nil _

end Progress

namespace Document

/-! ## Whole readings -/

/-- What a reading finds up to the last line that it reaches: the warnings about its directives, and
the findings of its logical lines. -/
def findings (settings : Settings) (ts : List Text) : List Diagnostic :=
  let layout := Layout.read settings.escapeDirective ts
  Directive.repeats [] (Directive.taken settings.escapeDirective []
      (Directive.ofLines (PhysicalLine.ofLines ts))) ++
    (Progress.reached settings (start layout) layout.lines).flatMap fun x => x.1.found settings x.2

variable {settings : Settings} {ts : List Text}

theorem findings_eq (settings : Settings) (ts : List Text) :
    findings settings ts =
      ((start (Layout.read settings.escapeDirective ts)).takeAll settings
        (Layout.read settings.escapeDirective ts).lines).1.diagnostics := by
  rw [Progress.diagnostics_takeAll, findings, ← Layout.warnings_read]
  rfl

/-- **A document begins with the findings of its reading, and a failure comes with them.** -/
theorem findings_of_readFully (settings : Settings) (ts : List Text) :
    match readFully settings ts with
    | .ok d => findings settings ts <+: d.diagnostics
    | .error (_, ds) => ds = findings settings ts := by
  rw [readFully_eq, findings_eq]
  generalize Layout.read settings.escapeDirective ts = layout
  rcases hp : (start layout).takeAll settings layout.lines with ⟨p, _ | f⟩
  · rw [complete]
    cases layout.failure with
    | some f => rfl
    | none =>
      rcases hfinish : p.finish settings layout.preamble.directives with ⟨f, ds⟩ | d
      · obtain ⟨traces, -, hpassage⟩ := Progress.passage_of_takeAll hp
        exact Progress.diagnostics_of_finish (hpassage.counted fun _ => rfl) hfinish
      · obtain ⟨-, -, rfl⟩ := Progress.eq_final_of_finish hfinish
        show p.diagnostics <+: _
        rw [Progress.diagnostics_final, List.append_assoc]
        exact List.prefix_append _ _
  · rfl

theorem clean_findings (hs : settings.bestEffort = false) :
    Progress.Clean (findings settings ts) := by
  have hclean := Progress.clean_takeAll_strict settings
    (start (Layout.read settings.escapeDirective ts))
      (Layout.read settings.escapeDirective ts).lines
    (Layout.read_spec settings.escapeDirective ts).1
  rw [Progress.recording_self hs] at hclean
  rw [findings_eq]
  exact hclean

/-- **Nothing that was found is lost.**  Of each logical line its undeclared names are found, each
once, and then its failure, if that is recorded; of the directives, those that repeat a name.
Reading without failing yields the document where there is one, with its diagnostics, and those
begin with all findings.  Where there is none, it yields exactly the findings and then the failure,
which is the only error unless failures are recorded. -/
theorem outcome_complete (settings : Settings) (t : Text) :
    (∀ (p : Progress) (l : LogicalLine),
      let o := Grammar.line l (p.context settings)
      let recorded := (p.failure? settings l).filter fun f => settings.bestEffort && f.recoverable
      p.found settings l =
          o.undeclared.map (fun name => ⟨.warning, "UndeclaredVariable",
            s!"variable '{str name}' is referenced but never declared", some l.lines⟩) ++
          recorded.toList.map (fun f => ⟨.error, f.code, f.message, f.lines⟩) ∧
        o.undeclared.Nodup ∧ ∀ name, name ∈ o.undeclared ↔ name ∈ o.references) ∧
      (∀ (before : List Text) (d : Directive),
        d.repeat? before = if d.name ∈ before then
            some ⟨.warning, "DuplicateDirective",
              s!"parser directive '{str d.name}' is repeated; the first one is used",
              some (.single d.line)⟩
          else none) ∧
      match read settings t with
      | .ok d =>
        outcome settings t = ⟨some d, d.diagnostics⟩ ∧ findings settings t.lines <+: d.diagnostics
      | .error f =>
        outcome settings t =
            ⟨none, findings settings t.lines ++ [⟨.error, f.code, f.message, f.lines⟩]⟩ ∧
          (settings.bestEffort = false → ∀ x ∈ findings settings t.lines, x.isError = false) := by
  refine ⟨fun p l => ⟨rfl, Outcome.nodup_undeclared _⟩,
    fun before d => if_congr List.contains_iff_mem rfl rfl, ?_⟩
  have hfound := findings_of_readFully settings t.lines
  rw [read, readLines, outcome]
  rcases h : readFully settings t.lines with ⟨f, ds⟩ | d
  · rw [h] at hfound
    rw [hfound]
    exact ⟨rfl, clean_findings⟩
  · rw [h] at hfound
    exact ⟨rfl, hfound⟩

/-- A directive is repeated, and a line fails after a word of it was filled in.  A tolerant reading
goes on behind such a line, and ends at a heredoc without its terminator. -/
theorem outcome_complete_copy :
    let t : Text := "# syntax=a\n# syntax=b\nFROM a\nCOPY $X".toList
    let u : Text := "# check=a\n# check=b\nFROM a\nCOPY $X $Y $X\nCOPY $X\nRUN <<E".toList
    let repeated : String → Diagnostic := fun name =>
      ⟨.warning, "DuplicateDirective",
        "parser directive '" ++ name ++ "' is repeated; the first one is used", some (.single 2)⟩
    let undeclared : String → Nat → Diagnostic := fun name line =>
      ⟨.warning, "UndeclaredVariable", "variable '" ++ name ++ "' is referenced but never declared",
        some (.single line)⟩
    let malformed : String → Nat → Diagnostic := fun place line =>
      ⟨.error, "MalformedInstruction", place ++
        ": malformed COPY instruction: COPY requires at least two arguments, but only 1 provided",
        some (.single line)⟩
    let unterminated : Diagnostic :=
      ⟨.error, "UnterminatedHeredoc", "line 6: unterminated heredoc '<<E'", some (.single 6)⟩
    outcome {} t = ⟨none, [repeated "syntax", undeclared "X" 4] ++ [malformed "line 4" 4]⟩ ∧
      (∀ x ∈ [repeated "syntax", undeclared "X" 4], x.isError = false) ∧
      outcome .tolerant u = ⟨none, [repeated "check", undeclared "X" 4, undeclared "Y" 4,
        undeclared "X" 5, malformed "line 5" 5] ++ [unterminated]⟩ := by
  intro t u repeated undeclared malformed unterminated
  let f : Failure := .malformed .copy (.tooFewPaths .copy 1) (.single 4)
  let g : Failure := .unterminatedHeredoc "E".toList (.single 6)
  have hstrict : read {} t = .error f := by decide +kernel
  have htolerant : read .tolerant u = .error g := by decide +kernel
  have hfirst : findings {} t.lines = [repeated "syntax", undeclared "X" 4] := by decide +kernel
  have hsecond : findings .tolerant u.lines = [repeated "check", undeclared "X" 4, undeclared "Y" 4,
      undeclared "X" 5, malformed "line 5" 5] := by decide +kernel
  have hlast : (⟨.error, f.code, f.message, f.lines⟩ : Diagnostic) = malformed "line 4" 4 := by
    decide +kernel
  have hunterminated : (⟨.error, g.code, g.message, g.lines⟩ : Diagnostic) = unterminated := by
    decide +kernel
  have hcomplete := (outcome_complete {} t).2.2
  have hall := (outcome_complete .tolerant u).2.2
  rw [hstrict, hfirst] at hcomplete
  rw [htolerant, hsecond] at hall
  rw [← hlast, ← hunterminated]
  exact ⟨hcomplete.1, hcomplete.2 rfl, hall.1⟩

end Document

end Containerfile
