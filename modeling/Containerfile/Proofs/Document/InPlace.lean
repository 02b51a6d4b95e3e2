import Containerfile.Proofs.Assembly
import Containerfile.Proofs.Document.Run

/-! # Failures in place

A reading keeps its place and changes it step by step: a line is counted, its findings are recorded,
a stage is opened or the names of an instruction are declared, and what does not fit is refused at
the end.  Here these steps are taken one after the other on one place, and what was changed before a
failure stays changed (`InPlace`).  The failures come early enough all the same: each of these steps
does what the step between two places does that it stands for (`Assembly.run_openInPlace`,
`Assembly.run_pushInPlace`, `Progress.run_placeInPlace`, `Progress.run_process`), and so a line that
fails leaves no trace but its number and what was found on it.

Main statement: `Progress.process_atomic`. -/
namespace Containerfile

/-- A step that changes a place.  What it changed before a failure stays changed. -/
abbrev InPlace (σ α : Type) := EStateM Failure σ α

namespace InPlace

variable {ε σ α : Type}

theorem run_tryCatch (x : EStateM ε σ α) (handle : ε → EStateM ε σ α) (s : σ) :
    (tryCatch x handle).run s =
      match x.run s with
      | .ok a t => .ok a t
      | .error f t => (handle f).run t := by
  show EStateM.tryCatch x handle s = _
  rw [EStateM.tryCatch, EStateM.run]
  cases x s with
  | ok a t => rfl
  | error f t => rfl

end InPlace

namespace Assembly

/-! ## Stages -/

/-- Opens a stage with an instruction and yields its index. -/
def openInPlace (e : Entry) : InPlace Assembly Nat := do
  match e.instruction with
  | .fromImage opening =>
    if let some name := (← get).takenName? opening then
      throw (.duplicateAlias name e.lines)
    let stage := (← get).stageFor opening e.lines
    modify fun a => { a with unresolved := a.unresolved ++ stage.unresolved }
    modify fun a => { a with stages := a.stages.begin stage }
    return stage.index
  | _ => throw (.malformed e.keyword .stageWithoutFrom e.lines)

/-- Adds an instruction to the current stage. -/
def pushInPlace (e : Entry) : InPlace Assembly Unit := do
  if (← get).hasStage then
    modify fun a => { a with stages := a.stages.modify (Stage.add e) }
  else throw (.beforeFirstFrom e.keyword e.lines)

theorem run_openInPlace (e : Entry) (a : Assembly) :
    (openInPlace e).run a =
      match a.openWith e with
      | .ok b => .ok a.stages.size b
      | .error f => .error f a := by
  obtain ⟨i, lines⟩ := e
  cases i with
  | fromImage opening =>
    cases h : a.takenName? opening with
    | some name => simp [openInPlace, openWith, openStage, h]
    | none =>
      simp only [openInPlace, openWith, openStage, EStateM.run_bind, EStateM.run_get, h]
      rfl
  | step s => rfl
  | onbuild s => rfl
  | maintainer name => rfl

theorem run_pushInPlace (e : Entry) (a : Assembly) :
    (pushInPlace e).run a =
      match a.push e with
      | .ok b => .ok () b
      | .error f => .error f a := by
  cases h : a.hasStage with
  | true => simp [pushInPlace, push, h]
  | false => simp [pushInPlace, push, h]

end Assembly

/-- What comes of a step in place that leads to a place, or to a place and a failure. -/
def Advance.inPlace : Advance → EStateM.Result Failure Progress Unit
  | (q, none) => .ok () q
  | (q, some f) => .error f q

namespace Progress

/-! ## Places -/

/-- A step on the stages of a place. -/
def onAssembly {α : Type} (x : InPlace Assembly α) : InPlace Progress α := fun p =>
  match x.run p.assembly with
  | .ok a b => .ok a { p with assembly := b }
  | .error f b => .error f { p with assembly := b }

/-- Records a failure if that is allowed, or fails with it. -/
def recoverInPlace (settings : Settings) (f : Failure) : InPlace Progress Unit :=
  if tolerates settings f then modify fun p => p.report [.ofFailure f]
  else throw f

/-- Declares the names that the instruction of the logical line `index` declares. -/
def declareInPlace (index : Nat) (i : Instruction) : InPlace Progress Unit :=
  modify fun p => { p with scope := declare p.scope index i }

/-- Takes an instruction that was read from the logical line `index`. -/
def placeInPlace (settings : Settings) (index : Nat) (e : Entry) : InPlace Progress Unit := do
  match e.instruction with
  | .fromImage base =>
    let _ ←
      try onAssembly (Assembly.openInPlace e)
      catch f =>
        recoverInPlace settings f
        onAssembly (Assembly.openInPlace ⟨.fromImage { base with stageName := none }, e.lines⟩)
    modify fun p => { p with scope := p.scope.enterStage }
  | i =>
    if !(← get).assembly.hasStage && i.keyword == .arg then
      declareInPlace index i
      modify fun p => { p with globals := p.globals ++ [e] }
    else
      if (← get).assembly.hasStage then declareInPlace index i
      onAssembly (Assembly.pushInPlace e)

/-- Takes a logical line; its words are read with an escape character. -/
def process (settings : Settings) (escape : Char) (l : LogicalLine) : InPlace Progress Unit := do
  let index := (← get).count
  modify fun p => { p with count := p.count + 1 }
  match Statement.ofLine l with
  | .error f => throw f
  | .ok s =>
    let outcome := Grammar.instruction s { (← get).context settings with escape := escape }
    modify fun p => p.report (outcome.undeclared.map (undeclaredWarning s.lines))
    match outcome.result with
    | .error f => throw f
    | .ok i => placeInPlace settings index ⟨i, s.lines⟩

theorem run_onAssembly {α : Type} (x : InPlace Assembly α) (p : Progress) :
    (onAssembly x).run p =
      match x.run p.assembly with
      | .ok a b => .ok a { p with assembly := b }
      | .error f b => .error f { p with assembly := b } := rfl

theorem run_recoverInPlace (settings : Settings) (f : Failure) (p : Progress) :
    (recoverInPlace settings f).run p = Advance.inPlace (p.recover settings f) := by
  rw [recoverInPlace, recover]
  split
  · rfl
  · rfl

theorem run_placeInPlace (settings : Settings) (index : Nat) (e : Entry) (p : Progress) :
    (placeInPlace settings index e).run p = Advance.inPlace (p.place settings index e) := by
  obtain ⟨i, lines⟩ := e
  cases i with
  | fromImage base =>
    have hopen : ∀ (b : BaseImage) (q : Progress),
        (onAssembly (Assembly.openInPlace ⟨.fromImage b, lines⟩)).run q =
          match q.assembly.openStage b lines with
          | .ok a => .ok q.assembly.stages.size { q with assembly := a }
          | .error f => .error f q := by
      intro b q
      have hwith : q.assembly.openWith ⟨.fromImage b, lines⟩ = q.assembly.openStage b lines := rfl
      rw [run_onAssembly, Assembly.run_openInPlace, hwith]
      cases q.assembly.openStage b lines with
      | ok a => rfl
      | error f => rfl
    simp only [placeInPlace, EStateM.run_bind, InPlace.run_tryCatch, hopen, place, openStage]
    cases h : p.assembly.openStage base lines with
    | ok a => rfl
    | error f =>
      simp only [run_recoverInPlace]
      rcases hr : p.recover settings f with ⟨q, _ | g⟩
      · simp only [Advance.inPlace]
        cases q.assembly.openStage { base with stageName := none } lines with
        | ok a => rfl
        | error g => rfl
      · rfl
  | _ =>
    simp only [placeInPlace, place, EStateM.run_bind, EStateM.run_get]
    cases h : p.assembly.hasStage with
    | true =>
      -- what is declared first is not lost, since what follows can be pushed
      simp [declareInPlace, run_onAssembly, Assembly.run_pushInPlace, Assembly.push, h,
        Advance.inPlace]
    | false =>
      split
      · rfl
      · simp [run_onAssembly, Assembly.run_pushInPlace, Assembly.push, h, Advance.inPlace]

theorem run_process (settings : Settings) (escape : Char) (l : LogicalLine) (p : Progress) :
    (process settings escape l).run p =
      Advance.inPlace (absorb settings { p with count := p.count + 1 } p.count l.lines
        (Grammar.line l { p.context settings with escape := escape })) := by
  simp only [process, EStateM.run_bind, EStateM.run_get, EStateM.run_modify]
  cases hs : Statement.ofLine l with
  | error f =>
    rw [Grammar.line_of_read_error hs]
    simp [absorb, report, Outcome.undeclared, Advance.inPlace]
  | ok s =>
    have hlines : s.lines = l.lines := (Statement.read_lines hs).1
    rw [Grammar.line_of_read hs, ← hlines, absorb]
    simp only [EStateM.run_bind, EStateM.run_get, EStateM.run_modify]
    have hcontext : context settings { p with count := p.count + 1 } = p.context settings := rfl
    rw [hcontext]
    cases (Grammar.instruction s { p.context settings with escape := escape }).result with
    | error f => rfl
    | ok i => exact run_placeInPlace settings p.count ⟨i, s.lines⟩ _

/-! ## Failures -/

/-- An instruction that is refused leaves the place as it was. -/
theorem eq_of_place {settings : Settings} {p q : Progress} {index : Nat} {e : Entry} {f : Failure}
    (h : p.place settings index e = (q, some f)) : q = p := by
  by_cases hbase : ∃ base, e.instruction = .fromImage base
  · obtain ⟨base, hbase⟩ := hbase
    rw [place, hbase] at h
    dsimp only at h
    rcases openStage_cases settings p base e.lines with
      ⟨a, -, hopen⟩ | ⟨g, -, -, ⟨-, hopen⟩ | ⟨-, a, hopen, -⟩⟩
    · rw [hopen] at h
      cases h
    · rw [hopen] at h
      cases h
      rfl
    · rw [hopen] at h
      cases h
  · rw [place_of_not_from settings p fun base hi => hbase ⟨base, hi⟩] at h
    split at h
    · cases h
    · split at h
      · cases h
      · cases h
        rfl

/-- A line that fails leaves what was found on it. -/
theorem eq_of_absorb {settings : Settings} {p q : Progress} {index : Nat} {lines : LineSpan}
    {o : Outcome Instruction} {f : Failure} (h : absorb settings p index lines o = (q, some f)) :
    q = p.report (o.undeclared.map (undeclaredWarning lines)) := by
  rw [absorb] at h
  split at h
  · cases h
    rfl
  · exact eq_of_place h

/-- **A line that fails leaves no trace** but its number and what was found on it, whatever the
escape character of its words: all layers of the scope, the stages with their names and the
bases to be looked at again, and the instructions before the first stage are as they were.  With
the escape character of the scope this is how a reading takes the line.  Opening a stage and
adding an instruction to one fail where the functions fail that they stand for, and then leave
the stages as they were. -/
theorem process_atomic (settings : Settings) (escape : Char) (l : LogicalLine) (p : Progress) :
    (∀ q f, (process settings escape l).run p = .error f q →
      q.scope = p.scope ∧ q.assembly = p.assembly ∧ q.globals = p.globals ∧
        q.count = p.count + 1 ∧ p.diagnostics <+: q.diagnostics) ∧
    (process settings p.scope.escape l).run p = Advance.inPlace (p.take settings l) ∧
    (∀ a e b f, (Assembly.openInPlace e).run a = .error f b ↔ b = a ∧ a.openWith e = .error f) ∧
    ∀ a e b f, (Assembly.pushInPlace e).run a = .error f b ↔ b = a ∧ a.push e = .error f := by
  refine ⟨?_, ?_, ?_, ?_⟩
  · intro q f h
    rw [run_process] at h
    rcases habsorb : absorb settings { p with count := p.count + 1 } p.count l.lines
        (Grammar.line l { p.context settings with escape := escape }) with ⟨r, _ | g⟩
    · rw [habsorb] at h
      cases h
    · rw [habsorb] at h
      cases h
      rw [eq_of_absorb habsorb]
      exact ⟨rfl, rfl, rfl, rfl, List.prefix_append _ _⟩
  · rw [run_process, take_eq]
    rfl
  · intro a e b f
    rw [Assembly.run_openInPlace]
    cases a.openWith e with
    | ok c => simp
    | error g => simp [and_comm, eq_comm]
  · intro a e b f
    rw [Assembly.run_pushInPlace]
    cases a.push e with
    | ok c => simp
    | error g => simp [and_comm, eq_comm]

/-- The name of a stage is taken, which shows after a word of its FROM was filled in. -/
theorem process_atomic_taken :
    let p := (take {} {} ⟨.single 1, "FROM a AS b".toList, "FROM a AS b".toList, []⟩).1
    let l : LogicalLine := ⟨.single 2, "FROM c$X AS b".toList, "FROM c$X AS b".toList, []⟩
    let found := [undeclaredWarning (.single 2) "X".toList]
    ∃ q, (process {} '\x60' l).run p = .error (.duplicateAlias "b".toList (.single 2)) q ∧
      q.diagnostics = found ∧ p.assembly.aliases = [some "b".toList] ∧
      q.scope = p.scope ∧ q.assembly = p.assembly ∧ q.globals = p.globals ∧
      q.count = p.count + 1 ∧ p.diagnostics <+: q.diagnostics := by
  intro p l found
  have habsorb : absorb {} { p with count := p.count + 1 } p.count l.lines
      (Grammar.line l { p.context {} with escape := '\x60' }) =
        ({ p with count := 2, diagnostics := found },
          some (.duplicateAlias "b".toList (.single 2))) := by
    decide +kernel
  have hfail := run_process {} '\x60' l p
  rw [habsorb] at hfail
  have hnames : p.assembly.aliases = [some "b".toList] := by decide +kernel
  exact ⟨_, hfail, rfl, hnames, (process_atomic {} '\x60' l p).1 _ _ hfail⟩

end Progress

end Containerfile
