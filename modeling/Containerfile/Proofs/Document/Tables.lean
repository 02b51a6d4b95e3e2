import Containerfile.Proofs.Document.InPlace
import Containerfile.Proofs.Document.Rows

/-! # Lists that are kept apart

What is known between two logical lines can be kept in lists that know nothing of each other:
the layers of the scope, the stages, each with all its instructions in one list, and the names
of the stages (`Tables`).  Every step changes them one after the other, and it can stop for
reasons that are no failures of a file (`Stop`): the stage that is opened is not the one whose
layer is begun, a stage cannot be opened without a name either, or the first instruction of a
stage is asked for and there is none.

The lists are those of a place of a reading (`Progress.tables`).  While the scope has a layer for
each stage, what a logical line does to them is what it does to the place (`Tables.run_place`,
`Tables.run_advance`). -/
namespace Containerfile

/-- What is known between two logical lines, in lists that are kept apart. -/
structure Tables where
  scope : Scope
  rows : Draft Row := .empty
  aliases : Aliases := []
  unresolved : List (Text × LineSpan) := []
  globals : List Entry := []
  diagnostics : List Diagnostic := []
  count : Nat := 0
  deriving DecidableEq, Repr

namespace Tables

/-- A step on the lists.  What it changed before it stops stays changed. -/
abbrev Change (α : Type) := EStateM Stop Tables α

/-- Goes on after a failure; for any other reason it stops. -/
def onFailure {α : Type} (x : Change α) (handle : Failure → Change α) : Change α :=
  tryCatch x fun
    | .failure f => handle f
    | s => throw s

/-! ## Stages -/

/-- What a new stage is built on, by the list of names. -/
def resolveBase (t : Tables) (image : ImageName) : Base :=
  if image.isBare then
    match t.aliases.position image.repository with
    | some index => .stage index
    | none =>
      if Text.sameName image.repository "scratch".toList then .scratch else .external image
  else .external image

/-- The name that a FROM would give its stage, if it is on the list of names. -/
def takenName? (t : Tables) (opening : BaseImage) : Option Text :=
  opening.stageName.filter fun name => (t.aliases.position name).isSome

/-- Opens a stage with an instruction and yields its index. -/
def openStage (e : Entry) : Change Nat := do
  match e.instruction with
  | .fromImage opening =>
    let t ← get
    if let some name := t.takenName? opening then
      throw (.failure (.duplicateAlias name e.lines))
    let index := t.rows.size
    let base := t.resolveBase opening.image
    modify fun t =>
      { t with
        unresolved := t.unresolved ++ (base.unresolved?.map fun name => (name, e.lines)).toList }
    modify fun t => { t with aliases := t.aliases ++ [opening.stageName] }
    modify fun t =>
      { t with
        rows := t.rows.begin
          { index := index, name := opening.stageName, base := base, instructions := [e] } }
    return index
  | _ => throw (.failure (.malformed e.keyword .stageWithoutFrom e.lines))

/-- Begins the layer of the next stage and yields its index. -/
def enterStage : Change Nat := do
  let index := (← get).scope.stages.size
  modify fun t => { t with scope := t.scope.enterStage }
  return index

/-- Adds an instruction to the current stage. -/
def push (e : Entry) : Change Unit := do
  if (← get).rows.isEmpty then throw (.failure (.beforeFirstFrom e.keyword e.lines))
  else modify fun t => { t with rows := t.rows.modify (Row.add e) }

/-! ## Lines -/

/-- Records a failure if that is allowed, or stops with it. -/
def recover (settings : Settings) (f : Failure) : Change Unit :=
  if Progress.tolerates settings f then
    modify fun t => { t with diagnostics := t.diagnostics ++ [.ofFailure f] }
  else throw (.failure f)

/-- Declares the names that the instruction of the logical line `index` declares. -/
def declare (index : Nat) (i : Instruction) : Change Unit :=
  modify fun t => { t with scope := Progress.declare t.scope index i }

/-- Opens a stage, without a name if its name is taken and that is recorded; yields its index. -/
def openOrRename (settings : Settings) (base : BaseImage) (lines : LineSpan) : Change Nat :=
  onFailure (openStage ⟨.fromImage base, lines⟩) fun f => do
    recover settings f
    onFailure (openStage ⟨.fromImage { base with stageName := none }, lines⟩) fun f =>
      throw (.unopened f)

/-- Takes an instruction other than FROM: before the first stage an ARG, or else for the current
stage. -/
def join (index : Nat) (e : Entry) : Change Unit := do
  if (← get).rows.isEmpty && e.keyword == .arg then
    declare index e.instruction
    modify fun t => { t with globals := t.globals ++ [e] }
  else
    if !(← get).rows.isEmpty then declare index e.instruction
    push e

/-- Takes an instruction that was read from the logical line `index`. -/
def place (settings : Settings) (index : Nat) (e : Entry) : Change Unit := do
  match e.instruction with
  | .fromImage base =>
    let opened ← openOrRename settings base e.lines
    let entered ← enterStage
    if opened ≠ entered then throw (.outOfStep opened entered)
  | _ => join index e

/-- The context of a logical line. -/
def context (settings : Settings) (t : Tables) : Context :=
  { escape := t.scope.escape
    scope := if settings.expandVariables then some t.scope else none
    aliases := t.aliases
    deferred := false }

/-- Takes a logical line. -/
def take (settings : Settings) (l : LogicalLine) : Change Unit := do
  let index := (← get).count
  modify fun t => { t with count := t.count + 1 }
  match Statement.ofLine l with
  | .error f => throw (.failure f)
  | .ok s =>
    let outcome := Grammar.instruction s ((← get).context settings)
    modify fun t =>
      { t with diagnostics := t.diagnostics ++ outcome.undeclared.map (undeclaredWarning s.lines) }
    match outcome.result with
    | .error f => throw (.failure f)
    | .ok i => place settings index ⟨i, s.lines⟩

/-- Takes logical lines up to the first failure that is not recorded. -/
def takeAll (settings : Settings) : List LogicalLine → Change Unit
  | [] => return
  | l :: ls => do
    onFailure (take settings l) (recover settings)
    takeAll settings ls

/-! ## The end -/

/-- The failures that show only when all stages are known. -/
def lateFailures (t : Tables) : List Failure :=
  (t.unresolved.filter fun u => (t.aliases.position u.1).isSome).map fun u =>
    .unknownStage u.1 u.2

/-- Records failures up to the first one that cannot be. -/
def recoverAll (settings : Settings) : List Failure → Change Unit
  | [] => return
  | f :: fs => do
    recover settings f
    recoverAll settings fs

/-- The stages with the bindings at their ends. -/
def bound (t : Tables) : List Row :=
  t.rows.toList.map fun r => { r with bindings := t.scope.bindingsOf r.index }

/-- The stages after the last logical line. -/
def finish (settings : Settings) (directives : Directives) : Change (List Row) := do
  let t ← get
  recoverAll settings t.lateFailures
  if t.count = 0 then throw (.failure .emptyDocument)
  else if t.bound.isEmpty then throw (.failure .missingFrom)
  else
    match Row.lintAll directives.skippedChecks t.bound with
    | .error s => throw s
    | .ok found =>
      modify fun t => { t with diagnostics := t.diagnostics ++ found }
      return t.bound

/-- The stages of a file. -/
def read (settings : Settings) (layout : Layout) : Change (List Row) := do
  takeAll settings layout.lines
  if let some f := layout.failure then throw (.failure f)
  finish settings layout.preamble.directives

/-- The lists before the first logical line. -/
def start (layout : Layout) : Tables :=
  { scope := { escape := layout.preamble.escape }
    diagnostics := layout.preamble.warnings }

end Tables

/-! ## The lists of a place -/

/-- The lists that say what a place says. -/
def Progress.tables (p : Progress) : Tables :=
  { scope := p.scope
    rows := p.assembly.stages.map Stage.row
    aliases := p.assembly.aliases
    unresolved := p.assembly.unresolved
    globals := p.globals
    diagnostics := p.diagnostics
    count := p.count }

/-- What comes of a step on the lists that leads to those of a place, or to those and a failure. -/
def Advance.onTables : Advance → EStateM.Result Stop Tables Unit
  | (q, none) => .ok () q.tables
  | (q, some f) => .error (.failure f) q.tables

namespace Tables

variable {settings : Settings} {p : Progress}

theorem run_onFailure_of_ok {α : Type} {x : Change α} {handle : Failure → Change α} {t u : Tables}
    {a : α} (h : x.run t = .ok a u) : (onFailure x handle).run t = .ok a u := by
  rw [onFailure, InPlace.run_tryCatch, h]

theorem run_onFailure_of_failure {α : Type} {x : Change α} {handle : Failure → Change α}
    {t u : Tables} {f : Failure} (h : x.run t = .error (.failure f) u) :
    (onFailure x handle).run t = (handle f).run u := by
  rw [onFailure, InPlace.run_tryCatch, h]

/-- A stage that is begun is a new row and a new name. -/
theorem tables_begin (p : Progress) (s : Stage) (unresolved : List (Text × LineSpan)) :
    Progress.tables
      { p with assembly := { stages := p.assembly.stages.begin s, unresolved := unresolved } } =
      { p.tables with
        rows := p.tables.rows.begin s.row
        aliases := p.tables.aliases ++ [s.givenName]
        unresolved := unresolved } := by
  rw [Progress.tables, Draft.map_begin, Assembly.aliases, Draft.toList_begin, List.map_append]
  rfl

/-- An instruction that is pushed goes to the last row and changes no name. -/
theorem tables_push {a : Assembly} {e : Entry} (h : p.assembly.push e = .ok a) :
    Progress.tables { p with assembly := a } =
      { p.tables with rows := p.tables.rows.modify (Row.add e) } := by
  have hname := Assembly.aliases_of_push h
  obtain ⟨-, rfl⟩ := Assembly.push_eq_ok_iff.mp h
  have hrows : (p.assembly.stages.modify (Stage.add e)).map Stage.row =
      (p.assembly.stages.map Stage.row).modify (Row.add e) :=
    Draft.map_modify (fun s => (rfl : (s.add e).row = s.row.add e)) _
  rw [Progress.tables, hname, hrows]
  rfl

theorem run_openStage (p : Progress) (opening : BaseImage) (lines : LineSpan) :
    (openStage ⟨.fromImage opening, lines⟩).run p.tables =
      match p.assembly.openStage opening lines with
      | .ok a => .ok p.assembly.stages.size { p with assembly := a }.tables
      | .error f => .error (.failure f) p.tables := by
  have htaken : p.tables.takenName? opening = p.assembly.takenName? opening := rfl
  cases h : p.assembly.takenName? opening with
  | some name => simp [openStage, Assembly.openStage, htaken, h]
  | none =>
    have hsize : p.tables.rows.size = p.assembly.stages.size := Draft.size_map _
    simp only [openStage, Assembly.openStage, EStateM.run_bind, EStateM.run_get, EStateM.run_modify,
      EStateM.run_pure, htaken, h, tables_begin, hsize]
    rfl

theorem isEmpty_tables (p : Progress) : p.tables.rows.isEmpty = !p.assembly.hasStage := by
  rw [Assembly.hasStage, Bool.not_not]
  exact Draft.isEmpty_map _

theorem run_push (p : Progress) (e : Entry) :
    (push e).run p.tables =
      match p.assembly.push e with
      | .ok a => .ok () { p with assembly := a }.tables
      | .error f => .error (.failure f) p.tables := by
  have hopen := isEmpty_tables p
  cases hpush : p.assembly.push e with
  | ok a =>
    obtain ⟨hstage, -⟩ := Assembly.push_eq_ok_iff.mp hpush
    simp [push, hopen, hstage, tables_push hpush]
  | error f =>
    rw [Assembly.push] at hpush
    split at hpush
    · cases hpush
    · rename_i hstage
      cases hpush
      simp [push, hopen, hstage]

theorem run_recover (settings : Settings) (p : Progress) (f : Failure) :
    (recover settings f).run p.tables = Advance.onTables (p.recover settings f) := by
  rw [recover, Progress.recover]
  split
  · rfl
  · rfl

theorem run_enterStage (t : Tables) :
    enterStage.run t = .ok t.scope.stages.size { t with scope := t.scope.enterStage } := rfl

/-- **A stage is opened on the lists where it is opened at the place**, before its layer is begun;
in particular it is opened without a name once its name is recorded as taken. -/
theorem run_openOrRename (settings : Settings) (p : Progress) (base : BaseImage)
    (lines : LineSpan) :
    (∃ (q : Progress) (a : Assembly),
        p.openStage settings base lines = (q.opened a, none) ∧ q.scope = p.scope ∧
        (openOrRename settings base lines).run p.tables =
          .ok p.assembly.stages.size (Progress.tables { q with assembly := a })) ∨
      ∃ f, p.openStage settings base lines = (p, some f) ∧
        (openOrRename settings base lines).run p.tables = .error (.failure f) p.tables := by
  have hrun := run_openStage p base lines
  rcases Progress.openStage_cases settings p base lines with
    ⟨a, ha, hopen⟩ | ⟨f, hf, hrecoverable, ⟨hs, hopen⟩ | ⟨hs, a, hopen, ha⟩⟩
  · rw [ha] at hrun
    exact Or.inl ⟨p, a, hopen, rfl, run_onFailure_of_ok hrun⟩
  · rw [hf] at hrun
    refine Or.inr ⟨f, hopen, ?_⟩
    rw [openOrRename, run_onFailure_of_failure hrun, EStateM.run_bind, run_recover,
      Progress.recover, Progress.tolerates, hs]
    rfl
  · rw [hf] at hrun
    have hretry := run_openStage (p.report [.ofFailure f]) { base with stageName := none } lines
    have ha' : (p.report [.ofFailure f]).assembly.openStage { base with stageName := none } lines =
      .ok a := ha
    rw [ha'] at hretry
    refine Or.inl ⟨p.report [.ofFailure f], a, hopen, rfl, ?_⟩
    rw [openOrRename, run_onFailure_of_failure hrun, EStateM.run_bind, run_recover,
      Progress.recover, Progress.tolerates, hs, hrecoverable]
    exact run_onFailure_of_ok hretry

/-- What is not a FROM is taken by the lists as by the place. -/
theorem run_join {index : Nat} {e : Entry} (hi : ∀ base, e.instruction ≠ .fromImage base) :
    (join index e).run p.tables = Advance.onTables (p.place settings index e) := by
  rw [Progress.place_of_not_from settings p hi]
  cases h : p.assembly.hasStage with
  | true =>
    -- the names are declared first; what follows can be pushed
    have hpush := run_push { p with scope := Progress.declare p.scope index e.instruction } e
    have hok : p.assembly.push e =
        .ok { p.assembly with stages := p.assembly.stages.modify (Stage.add e) } :=
      Assembly.push_eq_ok_iff.mpr ⟨h, rfl⟩
    simp only [hok] at hpush ⊢
    simp only [join, declare, EStateM.run_bind, EStateM.run_get, EStateM.run_modify, isEmpty_tables,
      h, Bool.not_true, Bool.not_false, Bool.false_and, Bool.false_eq_true, if_false, if_true]
    exact hpush
  | false =>
    have hpush := run_push p e
    have herror : p.assembly.push e = .error (.beforeFirstFrom e.keyword e.lines) := by
      rw [Assembly.push, h]
      rfl
    simp only [herror] at hpush ⊢
    cases hk : e.keyword == .arg with
    | true =>
      simp only [join, declare, EStateM.run_bind, EStateM.run_get, EStateM.run_modify,
        isEmpty_tables, h, hk, Bool.not_false, Bool.and_true, if_true]
      rfl
    | false =>
      simp only [join, EStateM.run_bind, EStateM.run_get, isEmpty_tables, h, hk, Bool.not_false,
        Bool.and_false, Bool.not_true, Bool.false_eq_true, if_false]
      exact hpush

/-- **An instruction is taken by the lists as by the place**, if the scope has a layer for each
stage. -/
theorem run_place (settings : Settings) (hp : p.scope.stages.size = p.assembly.stages.size)
    (index : Nat) (e : Entry) :
    (place settings index e).run p.tables = Advance.onTables (p.place settings index e) := by
  obtain ⟨i, lines⟩ := e
  cases i with
  | fromImage base =>
    rw [place, Progress.place]
    rcases run_openOrRename settings p base lines with
      ⟨q, a, hopen, hscope, hrun⟩ | ⟨f, hopen, hrun⟩
    · -- the stage that was opened is the one whose layer is begun
      have hentered : (Progress.tables { q with assembly := a }).scope.stages.size =
          p.assembly.stages.size := by
        rw [← hp, ← hscope]
        rfl
      simp only [EStateM.run_bind, hrun, hopen, run_enterStage, hentered]
      rw [if_neg (by simp)]
      rfl
    · simp only [EStateM.run_bind, hrun, hopen]
      rfl
  | _ => exact run_join fun base hi => by cases hi

/-- A logical line is taken by the lists as by the place. -/
theorem run_take (settings : Settings) (hp : p.scope.stages.size = p.assembly.stages.size)
    (l : LogicalLine) :
    (take settings l).run p.tables = Advance.onTables (p.take settings l) := by
  simp only [take, Progress.take, EStateM.run_bind, EStateM.run_get, EStateM.run_modify]
  cases Statement.ofLine l with
  | error f => rfl
  | ok s =>
    simp only [EStateM.run_bind, EStateM.run_get, EStateM.run_modify]
    have hcontext : context settings { p.tables with count := p.tables.count + 1 } =
      Progress.context settings { p with count := p.count + 1 } := rfl
    rw [hcontext]
    cases (Grammar.instruction s
      (Progress.context settings { p with count := p.count + 1 })).result with
    | error f => rfl
    | ok i =>
      exact run_place (p := { p with count := p.count + 1 }.report _) settings hp p.count
        ⟨i, s.lines⟩

/-- A logical line is settled by the lists as by the place. -/
theorem run_advance (settings : Settings) (hp : p.scope.stages.size = p.assembly.stages.size)
    (l : LogicalLine) :
    (onFailure (take settings l) (recover settings)).run p.tables =
      Advance.onTables (p.advance settings l) := by
  have hrun := run_take settings hp l
  rw [Progress.advance]
  rcases htake : p.take settings l with ⟨q, _ | f⟩
  · rw [htake] at hrun
    exact run_onFailure_of_ok hrun
  · rw [htake] at hrun
    rw [run_onFailure_of_failure hrun]
    exact run_recover settings q f

end Tables

end Containerfile
