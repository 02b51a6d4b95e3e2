import Containerfile.Document.Reading
import Containerfile.Proofs.Statement

/-! # One line after the other

What a reading does with one logical line (`Progress.take_eq`) and with all of them
(`Progress.takeAll_cons`), each as one equation, what opening a stage can lead to
(`Progress.openStage_cases`), and how a whole reading is put together (`Document.readFully_eq`). -/
namespace Containerfile

namespace Progress

variable {settings : Settings} {p q : Progress}

/-- Takes what a grammar made of the logical line `index` on some lines. -/
def absorb (settings : Settings) (p : Progress) (index : Nat) (lines : LineSpan)
    (o : Outcome Instruction) : Advance :=
  let q := p.report (o.undeclared.map (undeclaredWarning lines))
  match o.result with
  | .error f => (q, some f)
  | .ok i => q.place settings index ⟨i, lines⟩

/-- A logical line is counted, read in the light of what is known, and taken. -/
theorem take_eq (settings : Settings) (p : Progress) (l : LogicalLine) :
    p.take settings l =
      absorb settings { p with count := p.count + 1 } p.count l.lines
        (Grammar.line l (p.context settings)) := by
  cases hs : Statement.ofLine l with
  | error f =>
    rw [Grammar.line_of_read_error hs, take, hs]
    simp [absorb, report, Outcome.undeclared]
  | ok s =>
    have hlines : s.lines = l.lines := (Statement.read_lines hs).1
    rw [Grammar.line_of_read hs, take, hs, ← hlines]
    rfl

end Progress

/-- Goes on from a place unless a failure stands in the way. -/
def Advance.andThen (a : Advance) (next : Progress → Advance) : Advance :=
  match a with
  | (q, none) => next q
  | (q, some f) => (q, some f)

namespace Progress

variable {settings : Settings} {p q : Progress}

/-- Records a failure that came of a line if that is allowed. -/
def settle (settings : Settings) : Advance → Advance
  | (p, none) => (p, none)
  | (p, some f) => p.recover settings f

/-- Takes a logical line and settles it. -/
def advance (settings : Settings) (p : Progress) (l : LogicalLine) : Advance :=
  settle settings (p.take settings l)

theorem takeAll_cons (settings : Settings) (p : Progress) (l : LogicalLine)
    (ls : List LogicalLine) :
    takeAll settings p (l :: ls) =
      Advance.andThen (p.advance settings l) fun q => takeAll settings q ls := by
  rw [takeAll, advance]
  rcases p.take settings l with ⟨q, _ | f⟩
  · rfl
  · simp only [settle]
    rcases q.recover settings f with ⟨r, _ | g⟩
    · rfl
    · rfl

theorem recoverAll_cons (settings : Settings) (p : Progress) (f : Failure) (fs : List Failure) :
    recoverAll settings p (f :: fs) =
      Advance.andThen (p.recover settings f) fun q => recoverAll settings q fs := by
  rw [recoverAll]
  rcases p.recover settings f with ⟨q, _ | g⟩
  · rfl
  · rfl

/-- What every declaration of an instruction keeps, all of them together keep. -/
theorem declare_invariant {I : Scope → Prop} {sc : Scope} {index : Nat} {i : Instruction}
    (harg : ∀ args, i = .step (.arg args) → ∀ a ∈ args, ∀ sc, I sc →
      I (sc.declareArg a.name a.default index))
    (henv : ∀ vars, i = .step (.env vars) → ∀ v ∈ vars, ∀ sc, I sc →
      I (sc.declareEnv v.key v.value index))
    (h : I sc) : I (declare sc index i) := by
  unfold declare
  split
  · exact List.foldlRecOn _ _ h fun sc hsc a ha => harg _ rfl a ha sc hsc
  · exact List.foldlRecOn _ _ h fun sc hsc v hv => henv _ rfl v hv sc hsc
  · exact h

/-! ## Opening stages -/

/-- A place after a stage was opened. -/
def opened (p : Progress) (a : Assembly) : Progress :=
  { p with assembly := a, scope := p.scope.enterStage }

/-- A stage without a name can always be opened. -/
theorem openStage_unnamed (a : Assembly) (base : BaseImage) (lines : LineSpan) :
    ∃ b, a.openStage { base with stageName := none } lines = .ok b := by
  rw [Assembly.openStage, Assembly.takenName?]
  exact ⟨_, rfl⟩

/-- A stage that cannot be opened has a name that is taken. -/
theorem failure_of_openStage {a : Assembly} {base : BaseImage} {lines : LineSpan} {f : Failure}
    (h : a.openStage base lines = .error f) :
    ∃ name, a.takenName? base = some name ∧ f = .duplicateAlias name lines := by
  rw [Assembly.openStage] at h
  split at h
  · rename_i name hname
    cases h
    exact ⟨name, hname, rfl⟩
  · cases h

/-- **The three ways in which opening a stage can end.**  It is opened; its name is taken, which
ends the reading; or its name is taken, which is recorded, and it is opened without a name. -/
theorem openStage_cases (settings : Settings) (p : Progress) (base : BaseImage)
    (lines : LineSpan) :
    (∃ a, p.assembly.openStage base lines = .ok a ∧
        p.openStage settings base lines = (p.opened a, none)) ∨
      ∃ f, p.assembly.openStage base lines = .error f ∧ f.recoverable = true ∧
        ((settings.bestEffort = false ∧ p.openStage settings base lines = (p, some f)) ∨
          (settings.bestEffort = true ∧
            ∃ a, p.openStage settings base lines = ((p.report [.ofFailure f]).opened a, none) ∧
              p.assembly.openStage { base with stageName := none } lines = .ok a)) := by
  cases ha : p.assembly.openStage base lines with
  | ok a =>
    refine Or.inl ⟨a, rfl, ?_⟩
    rw [openStage, ha]
    rfl
  | error f =>
    obtain ⟨name, -, rfl⟩ := failure_of_openStage ha
    refine Or.inr ⟨_, rfl, rfl, ?_⟩
    cases hb : settings.bestEffort with
    | false =>
      have ht : tolerates settings (.duplicateAlias name lines) = false := by
        rw [tolerates, hb, Bool.false_and]
      refine Or.inl ⟨rfl, ?_⟩
      simp only [openStage, ha, recover, ht]
      rfl
    | true =>
      have ht : tolerates settings (.duplicateAlias name lines) = true := by
        rw [tolerates, hb, Bool.true_and]
        rfl
      obtain ⟨a, hopen⟩ := openStage_unnamed p.assembly base lines
      refine Or.inr ⟨rfl, a, ?_, hopen⟩
      have hopen' : (p.report [.ofFailure (.duplicateAlias name lines)]).assembly.openStage
          { base with stageName := none } lines = .ok a := hopen
      simp only [openStage, ha, recover, ht, if_true, hopen']
      rfl

/-! ## Whole readings -/

/-- What a reading makes of its last place once the failures that show at the end are settled. -/
def conclude (directives : Directives) : Advance → Except (Failure × List Diagnostic) Document
  | (p, some f) => .error (f, p.diagnostics)
  | (p, none) =>
    let stages := p.assembly.finish p.scope
    match checkDocument p.count stages with
    | some f => .error (f, p.diagnostics)
    | none =>
      .ok { directives := directives
            globalArgs := p.scope.global
            globals := p.globals
            stages := stages
            diagnostics := p.diagnostics ++ Lint.run directives.skippedChecks stages }

theorem finish_eq (settings : Settings) (p : Progress) (directives : Directives) :
    p.finish settings directives =
      conclude directives (p.recoverAll settings p.assembly.lateFailures) := by
  rw [finish]
  rcases p.recoverAll settings p.assembly.lateFailures with ⟨q, _ | f⟩
  · rfl
  · rfl

end Progress

namespace Document

/-- The place before the first logical line. -/
def start (layout : Layout) : Progress :=
  { scope := { escape := layout.preamble.escape }
    diagnostics := layout.preamble.warnings }

/-- What a reading makes of the place after the last logical line. -/
def complete (settings : Settings) (layout : Layout) :
    Advance → Except (Failure × List Diagnostic) Document
  | (p, some f) => .error (f, p.diagnostics)
  | (p, none) =>
    match layout.failure with
    | some f => .error (f, p.diagnostics)
    | none => p.finish settings layout.preamble.directives

theorem readFully_eq (settings : Settings) (ts : List Text) :
    readFully settings ts =
      complete settings (Layout.read settings.escapeDirective ts)
        ((start (Layout.read settings.escapeDirective ts)).takeAll settings
          (Layout.read settings.escapeDirective ts).lines) := by
  unfold readFully start
  dsimp only
  rcases Progress.takeAll settings _ _ with ⟨p, _ | f⟩
  · rfl
  · rfl

end Document

end Containerfile
