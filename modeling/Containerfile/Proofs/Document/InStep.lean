import Containerfile.Proofs.Document.Tables
import Containerfile.Proofs.Document.WellFormed

/-! # Lists in step

Between two logical lines the scope has a layer for each stage, the list of names has a name for
each stage, and each stage has an instruction (`Tables.InStep`).  This holds of the lists of
every well-formed place (`Tables.inStep_tables`), and a place stays well-formed with every line,
dropped lines and renamed stages included (`Progress.WellFormed.takeAll`).  Therefore a reading
by lists stops for its failures alone (`Tables.run_takeAll`) and comes to what the reading comes
to (`Tables.agrees_read`).

Main statement: `Tables.inStep_after_lines`. -/
namespace Containerfile

namespace Progress

variable {settings : Settings} {p : Progress}

/-- A line keeps a place well-formed, also one that ends the reading. -/
theorem WellFormed.advance (hp : p.WellFormed) (settings : Settings) (l : LogicalLine) :
    (p.advance settings l).1.WellFormed := by
  rcases h : p.advance settings l with ⟨q, _ | f⟩
  · obtain ⟨t, -, ht⟩ := handled_of_advance h
    exact ht.wellFormed hp
  · rw [Progress.advance] at h
    rcases htake : p.take settings l with ⟨r, _ | g⟩
    · rw [htake] at h
      cases h
    · have hr : r.WellFormed := by
        rw [take_eq] at htake
        rw [eq_of_absorb htake]
        exact hp.past _
      rw [htake, settle, recover] at h
      split at h
      · cases h
      · cases h
        exact hr

theorem WellFormed.takeAll (hp : p.WellFormed) (settings : Settings) (ls : List LogicalLine) :
    (p.takeAll settings ls).1.WellFormed := by
  induction ls generalizing p with
  | nil => exact hp
  | cons l ls ih =>
    have hq := hp.advance settings l
    rw [takeAll_cons]
    rcases h : p.advance settings l with ⟨q, _ | f⟩
    · rw [h] at hq
      exact ih hq
    · rw [h] at hq
      exact hq

/-- Failures that show at the end change what was found alone. -/
theorem exists_report_of_recoverAll (settings : Settings) (p : Progress) (fs : List Failure) :
    ∃ found, (p.recoverAll settings fs).1 = p.report found := by
  induction fs generalizing p with
  | nil => exact ⟨[], by simp [recoverAll, report]⟩
  | cons f fs ih =>
    rw [recoverAll_cons, recover]
    split
    · obtain ⟨found, hfound⟩ := ih (p.report [.ofFailure f])
      exact ⟨.ofFailure f :: found, hfound.trans (by simp [report])⟩
    · exact ⟨[], by simp [Advance.andThen, report]⟩

end Progress

namespace Tables

variable {settings : Settings} {p : Progress}

/-- **Logical lines are taken by the lists as by the place.** -/
theorem run_takeAll (settings : Settings) (hp : p.WellFormed) (ls : List LogicalLine) :
    (takeAll settings ls).run p.tables = Advance.onTables (p.takeAll settings ls) := by
  induction ls generalizing p with
  | nil => rfl
  | cons l ls ih =>
    have hq := hp.advance settings l
    rw [takeAll, Progress.takeAll_cons, EStateM.run_bind, run_advance settings hp.inStep]
    rcases h : p.advance settings l with ⟨q, _ | f⟩
    · rw [h] at hq
      exact ih hq
    · rfl

theorem run_recoverAll (settings : Settings) (p : Progress) (fs : List Failure) :
    (recoverAll settings fs).run p.tables = Advance.onTables (p.recoverAll settings fs) := by
  induction fs generalizing p with
  | nil => rfl
  | cons f fs ih =>
    rw [recoverAll, Progress.recoverAll_cons, EStateM.run_bind, run_recover]
    rcases p.recover settings f with ⟨q, _ | g⟩
    · exact ih q
    · rfl

theorem bound_tables (p : Progress) :
    p.tables.bound = (p.assembly.finish p.scope).map Stage.row := by
  rw [bound, Progress.tables, Draft.toList_map, Assembly.finish, List.map_map, List.map_map]
  rfl

/-! ## In step -/

/-- Whether the lists are in step: as many layers and names as stages, the name of each stage where
the stage is, and no stage without instructions. -/
structure InStep (t : Tables) : Prop where
  layers : t.scope.stages.size = t.rows.size
  names : t.aliases.length = t.rows.size
  named : ∀ (k : Nat) (r : Row), t.rows.toList[k]? = some r → t.aliases[k]? = some r.name
  nonempty : ∀ r ∈ t.rows.toList, r.instructions ≠ []

/-- The lists of a place are in step if the scope has a layer for each stage. -/
theorem inStep_tables (hp : p.scope.stages.size = p.assembly.stages.size) : p.tables.InStep where
  layers := hp.trans (Draft.size_map _).symm
  names := (Assembly.length_aliases _).trans (Draft.size_map _).symm
  named := by
    intro k r hr
    rw [Progress.tables, Draft.toList_map, List.getElem?_map, Option.map_eq_some_iff] at hr
    obtain ⟨s, hs, rfl⟩ := hr
    show (p.assembly.stages.toList.map Stage.givenName)[k]? = _
    rw [List.getElem?_map, hs]
    rfl
  nonempty := by
    intro r hr
    rw [Progress.tables, Draft.toList_map, List.mem_map] at hr
    obtain ⟨s, -, rfl⟩ := hr
    exact List.cons_ne_nil _ _

/-- Whether a reading by lists comes to what a reading comes to, with the lists in step. -/
def Agrees :
    EStateM.Result Stop Tables (List Row) → Except (Failure × List Diagnostic) Document → Prop
  | .ok rows t, .ok d =>
    t.InStep ∧ rows = d.stages.map Stage.row ∧ t.scope.global = d.globalArgs ∧
      t.globals = d.globals ∧
      t.diagnostics = d.diagnostics
  | .error s t, .error (f, found) => t.InStep ∧ s = .failure f ∧ t.diagnostics = found
  | _, _ => False

theorem agrees_finish (settings : Settings) (hp : p.scope.stages.size = p.assembly.stages.size)
    (directives : Directives) :
    Agrees ((finish settings directives).run p.tables) (p.finish settings directives) := by
  obtain ⟨found, hfound⟩ := Progress.exists_report_of_recoverAll settings p p.assembly.lateFailures
  have hrun := run_recoverAll settings p p.assembly.lateFailures
  have hlate : p.tables.lateFailures = p.assembly.lateFailures := rfl
  rw [finish, EStateM.run_bind, EStateM.run_get, Progress.finish_eq]
  simp only [EStateM.run_bind, hlate, hrun]
  rcases hr : p.recoverAll settings p.assembly.lateFailures with ⟨q, _ | f⟩
  · rw [hr] at hfound
    cases hfound
    simp only [Advance.onTables, bound_tables, Row.lintAll_stages]
    have hempty : ((p.assembly.finish p.scope).map Stage.row).isEmpty =
        (p.assembly.finish p.scope).isEmpty :=
      List.isEmpty_map
    have hcount : p.tables.count = p.count := rfl
    rw [hempty, hcount, Progress.conclude, checkDocument]
    dsimp only
    by_cases hc : p.count = 0
    · rw [if_pos hc, if_pos hc]
      exact ⟨inStep_tables hp, rfl, rfl⟩
    · rw [if_neg hc, if_neg hc]
      by_cases he : (p.assembly.finish p.scope).isEmpty = true
      · rw [if_pos he, if_pos he]
        exact ⟨inStep_tables hp, rfl, rfl⟩
      · rw [if_neg he, if_neg he]
        have hstep := inStep_tables hp
        exact ⟨⟨hstep.layers, hstep.names, hstep.named, hstep.nonempty⟩, rfl, rfl, rfl, rfl⟩
  · rw [hr] at hfound
    cases hfound
    exact ⟨inStep_tables hp, rfl, rfl⟩

theorem tables_start (layout : Layout) : (Document.start layout).tables = start layout := rfl

theorem agrees_read (settings : Settings) (texts : List Text) :
    let layout := Layout.read settings.escapeDirective texts
    Agrees ((read settings layout).run (start layout)) (Document.readFully settings texts) := by
  intro layout
  have hstart := Document.wellFormed_start layout
  have hp := hstart.takeAll settings layout.lines
  rw [Document.readFully_eq, ← tables_start, read, EStateM.run_bind, run_takeAll settings hstart]
  rcases h : (Document.start layout).takeAll settings layout.lines with ⟨p, _ | f⟩
  · rw [h] at hp
    simp only [Advance.onTables, Document.complete]
    cases hfailure : layout.failure with
    | some f => exact ⟨inStep_tables hp.inStep, rfl, rfl⟩
    | none => exact agrees_finish settings hp.inStep layout.preamble.directives
  · rw [h] at hp
    exact ⟨inStep_tables hp.inStep, rfl, rfl⟩

/-- **The lists are in step between any two logical lines**, whatever lines are read and
however, and also where a failure ends the reading.  No step stops for anything but a failure:
the stage that is opened is the one whose layer is begun, a stage can be opened without a name,
and a stage that is linted has a first instruction.  So the whole reading by lists comes to what
the reading comes to. -/
theorem inStep_after_lines (settings : Settings) (texts : List Text) :
    let layout := Layout.read settings.escapeDirective texts
    (∀ ls, ∃ t, t.InStep ∧
      ((takeAll settings ls).run (start layout) = .ok () t ∨
        ∃ f, (takeAll settings ls).run (start layout) = .error (.failure f) t)) ∧
    Agrees ((read settings layout).run (start layout)) (Document.readFully settings texts) := by
  intro layout
  refine ⟨fun ls => ?_, agrees_read settings texts⟩
  have hstart := Document.wellFormed_start layout
  have hq := (hstart.takeAll settings ls).inStep
  rw [← tables_start, run_takeAll settings hstart]
  generalize (Document.start layout).takeAll settings ls = after at hq ⊢
  rcases after with ⟨q, _ | f⟩
  · exact ⟨q.tables, inStep_tables hq, Or.inl rfl⟩
  · exact ⟨q.tables, inStep_tables hq, Or.inr ⟨f, rfl⟩⟩

/-- An instruction before the first FROM, a FROM that cannot be read, and a name that is taken. -/
theorem inStep_after_lines_tolerant :
    let layout := Layout.read true ["RUN x".toList, "FROM a AS b".toList, "FROM c d".toList,
      "FROM e AS B".toList, "RUN y".toList]
    ∃ t, (takeAll .tolerant layout.lines).run (start layout) = .ok () t ∧ t.InStep ∧
      t.aliases = [some "b".toList, none] ∧ t.diagnostics.length = 3 := by
  intro layout
  have hread : (match (takeAll .tolerant layout.lines).run (start layout) with
      | .ok _ t => some (t.aliases, t.diagnostics.length)
      | .error _ _ => none) = some ([some "b".toList, none], 3) := by decide +kernel
  obtain ⟨t, hstep, hrun⟩ : ∃ t, t.InStep ∧
      ((takeAll .tolerant layout.lines).run (start layout) = .ok () t ∨
        ∃ f, (takeAll .tolerant layout.lines).run (start layout) = .error (.failure f) t) :=
    (inStep_after_lines .tolerant ["RUN x".toList, "FROM a AS b".toList, "FROM c d".toList,
      "FROM e AS B".toList, "RUN y".toList]).1 layout.lines
  rcases hrun with hrun | ⟨f, hrun⟩
  · rw [hrun] at hread
    obtain ⟨hnames, hfound⟩ := Prod.mk.inj (Option.some.inj hread)
    exact ⟨t, hrun, hstep, hnames, hfound⟩
  · rw [hrun] at hread
    cases hread

end Tables

end Containerfile
