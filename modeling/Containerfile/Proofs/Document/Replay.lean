import Containerfile.Proofs.Document.Run
import Containerfile.Proofs.Grammar.Unnumbered

/-! # Readings replayed

What a reading comes to depends on the instructions that were taken, and on nothing else: not on the
lines they stood on, nor on the escape character they were written with.  `Progress.outline` leaves
these out of a place, and `Progress.replay` takes the instructions of a reading again, one after the
other.  Both lead to places with the same outline (`Progress.Run.outline`), and in a file without an
escape directive they give each line the same context (`Progress.context_eq`). -/
namespace Containerfile

/-! ## Outlines -/

/-- An entry without line numbers. -/
def Entry.unnumbered (e : Entry) : Entry := ⟨e.instruction.unnumbered, .single 0⟩

/-- A stage without line numbers. -/
def Stage.unnumbered (s : Stage) : Stage :=
  { s with openingLines := .single 0, body := s.body.map Entry.unnumbered }

/-- An assembly without line numbers. -/
def Assembly.unnumbered (a : Assembly) : Assembly :=
  { stages := a.stages.map Stage.unnumbered
    unresolved := a.unresolved.map fun u => (u.1, .single 0) }

/-- What a reading knows between two logical lines, without line numbers and findings. -/
structure Outline where
  /-- The bindings before the first stage. -/
  global : Layer
  /-- The bindings of the stages. -/
  layers : Draft Layer
  assembly : Assembly
  globals : List Entry
  count : Nat

namespace Progress

/-- A place without line numbers and findings. -/
def outline (p : Progress) : Outline :=
  { global := p.scope.global
    layers := p.scope.stages
    assembly := p.assembly.unnumbered
    globals := p.globals.map Entry.unnumbered
    count := p.count }

variable {p p' q : Progress}

/-- What it means for two places to have the same outline. -/
theorem outline_eq_iff :
    p.outline = p'.outline ↔
      p.scope.global = p'.scope.global ∧ p.scope.stages = p'.scope.stages ∧
        p.assembly.unnumbered = p'.assembly.unnumbered ∧
        p.globals.map Entry.unnumbered = p'.globals.map Entry.unnumbered ∧
        p.count = p'.count := by
  rw [outline, outline, Outline.mk.injEq]

end Progress

/-! ## Assemblies -/

namespace Assembly

variable {a b a' : Assembly}

theorem stages_of_unnumbered (h : a.unnumbered = a'.unnumbered) :
    a.stages.map Stage.unnumbered = a'.stages.map Stage.unnumbered := congrArg stages h

theorem aliases_unnumbered (a : Assembly) : a.unnumbered.aliases = a.aliases := by
  rw [aliases, unnumbered, Draft.toList_map, List.map_map]
  rfl

theorem aliases_of_unnumbered (h : a.unnumbered = a'.unnumbered) : a.aliases = a'.aliases := by
  rw [← aliases_unnumbered, h, aliases_unnumbered]

theorem hasStage_of_unnumbered (h : a.unnumbered = a'.unnumbered) : a.hasStage = a'.hasStage := by
  rw [hasStage, hasStage, ← Draft.isEmpty_map (f := Stage.unnumbered), stages_of_unnumbered h,
    Draft.isEmpty_map]

theorem openStage_of_unnumbered (h : a.unnumbered = a'.unnumbered) {base : BaseImage}
    {lines : LineSpan} (ha : a.openStage base lines = .ok b) (lines' : LineSpan) :
    ∃ b', a'.openStage base lines' = .ok b' ∧ b.unnumbered = b'.unnumbered := by
  have hstages := stages_of_unnumbered h
  have haliases := aliases_of_unnumbered h
  have htaken : a.takenName? base = a'.takenName? base := by rw [takenName?, takenName?, haliases]
  have hbase : a.resolveBase base.image = a'.resolveBase base.image := by
    rw [resolveBase, resolveBase, haliases]
  have hsize : a.stages.size = a'.stages.size := by
    have hlength := congrArg (fun d : Draft Stage => d.toList.length) hstages
    simpa [Draft.size] using hlength
  have hunresolved := congrArg unresolved h
  have hstage : (a.stageFor base lines).unnumbered = (a'.stageFor base lines').unnumbered := by
    rw [stageFor, stageFor, hbase, hsize]
    rfl
  have hadded : (a.stageFor base lines).unresolved.map (fun u => (u.1, LineSpan.single 0)) =
      (a'.stageFor base lines').unresolved.map fun u => (u.1, LineSpan.single 0) := by
    rw [stageFor, stageFor, hbase, Stage.unresolved, Stage.unresolved]
    cases (a'.resolveBase base.image).unresolved? with
    | none => rfl
    | some name => rfl
  obtain ⟨hfree, rfl⟩ := openStage_eq_ok_iff.mp ha
  refine ⟨_, openStage_eq_ok_iff.mpr ⟨htaken ▸ hfree, rfl⟩, ?_⟩
  rw [unnumbered, unnumbered] at hunresolved ⊢
  rw [Draft.map_begin, Draft.map_begin, hstages, hstage, List.map_append, List.map_append, hadded]
  rw [show List.map _ a.unresolved = _ from hunresolved]

theorem push_of_unnumbered (h : a.unnumbered = a'.unnumbered) {e e' : Entry}
    (he : e.unnumbered = e'.unnumbered) (ha : a.push e = .ok b) :
    ∃ b', a'.push e' = .ok b' ∧ b.unnumbered = b'.unnumbered := by
  have hadd : ∀ (k : Entry) (s : Stage),
      Stage.unnumbered (Stage.add k s) = Stage.add k.unnumbered s.unnumbered := by
    intro k s
    simp [Stage.unnumbered, Stage.add]
  have hunresolved := congrArg unresolved h
  obtain ⟨hs, rfl⟩ := push_eq_ok_iff.mp ha
  rw [hasStage_of_unnumbered h] at hs
  refine ⟨_, push_eq_ok_iff.mpr ⟨hs, rfl⟩, ?_⟩
  rw [unnumbered, unnumbered] at hunresolved ⊢
  rw [Draft.map_modify (hadd e), Draft.map_modify (hadd e'), stages_of_unnumbered h, he]
  rw [show List.map _ a.unresolved = _ from hunresolved]

/-- Whether a stage comes too early shows without line numbers. -/
theorem lateFailures_of_unnumbered (h : a.unnumbered = a'.unnumbered) (ha : a.lateFailures = []) :
    a'.lateFailures = [] := by
  have hnone : ∀ c : Assembly, c.lateFailures = [] ↔
      ∀ u ∈ c.unnumbered.unresolved, c.aliases.position u.1 = none := by
    intro c
    rw [lateFailures, List.map_eq_nil_iff, List.filter_eq_nil_iff, unnumbered, List.forall_mem_map]
    simp
  rw [hnone] at ha ⊢
  rw [← h, ← aliases_of_unnumbered h]
  exact ha

end Assembly

/-! ## Variables -/

namespace Scope

/-- A scope in a file with another escape character. -/
def withEscape (sc : Scope) (c : Char) : Scope := { sc with escape := c }

variable (sc : Scope) (c : Char)

theorem bind_withEscape (b : Binding) : (sc.withEscape c).bind b = (sc.bind b).withEscape c := by
  rw [bind, bind, withEscape]
  dsimp only
  cases sc.stages with
  | empty => rfl
  | writing settled current => rfl

theorem declareArg_withEscape (name : Text) (default : Option Text) (index : Nat) :
    (sc.withEscape c).declareArg name default index =
      (sc.declareArg name default index).withEscape c :=
  bind_withEscape sc c _

theorem declareEnv_withEscape (name value : Text) (index : Nat) :
    (sc.withEscape c).declareEnv name value index =
      (sc.declareEnv name value index).withEscape c :=
  bind_withEscape sc c _

/-- Two scopes with the same bindings differ in their escape characters alone. -/
theorem eq_withEscape {sc sc' : Scope} (hglobal : sc.global = sc'.global)
    (hstages : sc.stages = sc'.stages) : sc' = sc.withEscape sc'.escape := by
  obtain ⟨escape, global, stages⟩ := sc'
  rw [withEscape, hglobal, hstages]

end Scope

namespace Progress

/-- Names are declared whatever the escape character is. -/
theorem declare_withEscape (sc : Scope) (c : Char) (index : Nat) (i : Instruction) :
    declare (sc.withEscape c) index i = (declare sc index i).withEscape c := by
  unfold declare
  split
  · rename_i args
    induction args generalizing sc with
    | nil => rfl
    | cons a args ih =>
      rw [List.foldl_cons, List.foldl_cons, Scope.declareArg_withEscape]
      exact ih _
  · rename_i vars
    induction vars generalizing sc with
    | nil => rfl
    | cons v vars ih =>
      rw [List.foldl_cons, List.foldl_cons, Scope.declareEnv_withEscape]
      exact ih _
  · rfl

theorem escape_declare (sc : Scope) (index : Nat) (i : Instruction) :
    (declare sc index i).escape = sc.escape := by
  have h := declare_withEscape sc sc.escape index i
  have hsc : sc.withEscape sc.escape = sc := rfl
  rw [hsc] at h
  rw [h]
  rfl

theorem declare_unnumbered (sc : Scope) (index : Nat) (i : Instruction) :
    declare sc index i.unnumbered = declare sc index i := by
  cases i with
  | step s => cases s <;> rfl
  | _ => rfl

theorem declare_of_unnumbered {i j : Instruction} (h : i.unnumbered = j.unnumbered) (sc : Scope)
    (index : Nat) : declare sc index i = declare sc index j := by
  rw [← declare_unnumbered, h, declare_unnumbered]

/-! ## Steps -/

theorem fromImage_of_unnumbered {i j : Instruction} (h : i.unnumbered = j.unnumbered)
    {base : BaseImage} (hi : i = .fromImage base) : j = .fromImage base := by
  rw [hi] at h
  cases j with
  | fromImage b => exact h.symm
  | _ => cases h

variable {p p' q : Progress} {index : Nat} {e k : Entry}

/-- **An instruction that is taken at a place is taken at every place with the same outline.** -/
theorem Placed.of_outline (h : Placed p index e q) (hp : p.outline = p'.outline)
    (he : e.instruction.unnumbered = k.instruction.unnumbered) :
    ∃ q', Placed p' index k q' ∧ q.outline = q'.outline := by
  obtain ⟨hglobal, hlayers, hstages, hglobals, hcount⟩ := outline_eq_iff.mp hp
  have hscope := Scope.eq_withEscape hglobal hlayers
  have hentry : e.unnumbered = k.unnumbered := by rw [Entry.unnumbered, he, Entry.unnumbered]
  have hfrom : (∀ base, e.instruction ≠ .fromImage base) →
      ∀ base, k.instruction ≠ .fromImage base :=
    fun hi base hb => hi base (fromImage_of_unnumbered he.symm hb)
  -- names and values are declared alike, and the escape character is left as it is
  have hdeclare : declare p'.scope index k.instruction =
      (declare p.scope index e.instruction).withEscape p'.scope.escape := by
    rw [← declare_withEscape, ← hscope, declare_of_unnumbered he]
  cases h with
  | opens hi ha =>
    obtain ⟨b, hb, hab⟩ := Assembly.openStage_of_unnumbered hstages ha k.lines
    refine ⟨_, Placed.opens (fromImage_of_unnumbered he hi) hb, ?_⟩
    apply outline_eq_iff.mpr
    refine ⟨hglobal, ?_, hab, hglobals, hcount⟩
    show p.scope.enterStage.stages = p'.scope.enterStage.stages
    rw [Scope.enterStage, Scope.enterStage, hlayers]
  | declares hi hs hk =>
    have hs' : p'.assembly.hasStage = false := by rw [← Assembly.hasStage_of_unnumbered hstages, hs]
    have hk' : k.keyword = .arg := by
      rw [← hk]
      exact (Instruction.keyword_of_unnumbered he).symm
    refine ⟨_, Placed.declares (hfrom hi) hs' hk', ?_⟩
    apply outline_eq_iff.mpr
    dsimp only
    rw [hdeclare, List.map_append, List.map_append, hglobals, List.map_singleton,
      List.map_singleton, hentry]
    exact ⟨rfl, rfl, hstages, rfl, hcount⟩
  | joins hi ha =>
    obtain ⟨b, hb, hab⟩ := Assembly.push_of_unnumbered hstages hentry ha
    refine ⟨_, Placed.joins (hfrom hi) hb, ?_⟩
    apply outline_eq_iff.mpr
    dsimp only
    rw [hdeclare]
    exact ⟨rfl, rfl, hab, hglobals, hcount⟩

theorem Placed.escape (h : Placed p index e q) : q.scope.escape = p.scope.escape := by
  cases h with
  | opens hi ha => rfl
  | declares hi hs hk => exact escape_declare _ _ _
  | joins hi ha => exact escape_declare _ _ _

/-- Nothing stands against a document at one place if nothing does at another one with the same
outline. -/
theorem Complete.of_outline (h : p.Complete) (hp : p.outline = p'.outline) : p'.Complete := by
  obtain ⟨-, -, hstages, -, hcount⟩ := outline_eq_iff.mp hp
  have hempty : (p.assembly.finish p.scope).isEmpty = (p'.assembly.finish p'.scope).isEmpty := by
    have hfinish : ∀ (a : Assembly) (sc : Scope),
        (a.finish sc).isEmpty = (a.stages.map Stage.unnumbered).toList.isEmpty := by
      intro a sc
      rw [Assembly.finish, Draft.toList_map, List.isEmpty_map, List.isEmpty_map]
    rw [hfinish, hfinish, Assembly.stages_of_unnumbered hstages]
  refine ⟨Assembly.lateFailures_of_unnumbered hstages h.1, ?_⟩
  have hcheck := h.2
  rw [checkDocument, hempty, hcount] at hcheck
  exact hcheck

/-! ## Replaying -/

/-- A place where one more line was counted. -/
def counted (p : Progress) : Progress := { p with count := p.count + 1 }

/-- The place after one more instruction. -/
def follow (p : Progress) (i : Instruction) : Progress :=
  (p.counted.place {} p.count ⟨i, .single 0⟩).1

/-- The place after some instructions of a file without an escape directive. -/
def replay (is : List Instruction) : Progress := (is.map Instruction.unnumbered).foldl follow {}

theorem replay_append (is : List Instruction) (i : Instruction) :
    replay (is ++ [i]) = (replay is).follow i.unnumbered := by
  rw [replay, List.map_append, List.foldl_append]
  rfl

theorem escape_follow (p : Progress) (i : Instruction) :
    (p.follow i).scope.escape = p.scope.escape := by
  rw [follow, place]
  split
  · rename_i base _
    rcases openStage_cases {} p.counted base (.single 0) with
      ⟨a, -, h⟩ | ⟨f, -, -, ⟨-, h⟩ | ⟨hfalse, -⟩⟩
    · rw [h]
      rfl
    · rw [h]
      rfl
    · cases hfalse
  · split
    · exact escape_declare _ _ _
    · split
      · exact escape_declare _ _ _
      · rfl

theorem escape_replay (is : List Instruction) : (replay is).scope.escape = defaultEscape := by
  have hfold : ∀ (js : List Instruction) (p : Progress),
      (js.foldl follow p).scope.escape = p.scope.escape := by
    intro js
    induction js with
    | nil =>
      intro p
      rfl
    | cons j js ih =>
      intro p
      rw [List.foldl_cons, ih, escape_follow]
  exact hfold _ _

/-- Whether an instruction is taken after some others. -/
def Accepted (before : List Instruction) (i : Instruction) : Prop :=
  Placed (replay before).counted (replay before).count ⟨i.unnumbered, .single 0⟩
    (replay (before ++ [i]))

theorem accepted_of_placed {before : List Instruction} {i : Instruction} {q : Progress}
    (h : Placed (replay before).counted (replay before).count ⟨i.unnumbered, .single 0⟩ q) :
    q = replay (before ++ [i]) := by
  rw [replay_append, follow, place_eq_iff.mpr h]

/-- The context of a line after some instructions, in a file without an escape directive. -/
def contextAfter (is : List Instruction) : Context := (replay is).context {}

/-- **The context of a line depends on the instructions before it alone.** -/
theorem context_eq {is : List Instruction} (hp : p.outline = (replay is).outline)
    (hescape : p.scope.escape = defaultEscape) : p.context {} = contextAfter is := by
  obtain ⟨hglobal, hlayers, hstages, -, -⟩ := outline_eq_iff.mp hp
  have hscope := Scope.eq_withEscape hglobal hlayers
  rw [escape_replay, ← hescape] at hscope
  have hscope' : (replay is).scope = p.scope := hscope
  rw [contextAfter, context, context, hscope', Assembly.aliases_of_unnumbered hstages]

/-! ## Runs -/

/-- What is noted about a line does not show in the outline, except that the line was counted. -/
theorem outline_noted (hp : p.outline = p'.outline) (l : LogicalLine) :
    (p.noted l).outline = p'.counted.outline := by
  obtain ⟨hglobal, hlayers, hstages, hglobals, hcount⟩ := outline_eq_iff.mp hp
  exact outline_eq_iff.mpr ⟨hglobal, hlayers, hstages, hglobals, congrArg (· + 1) hcount⟩

theorem Placed.replayed {l : LogicalLine} {i j : Instruction} {before : List Instruction}
    (h : Placed (p.noted l) p.count ⟨i, l.lines⟩ q) (hp : p.outline = (replay before).outline)
    (hij : i.unnumbered = j.unnumbered) :
    Accepted before j ∧ q.outline = (replay (before ++ [j])).outline := by
  have hcount : p.count = (replay before).count := (outline_eq_iff.mp hp).2.2.2.2
  have hcounted : (p.noted l).outline = (replay before).counted.outline := outline_noted hp l
  have hj : i.unnumbered = j.unnumbered.unnumbered := by rw [hij, Instruction.unnumbered_unnumbered]
  obtain ⟨q', hq', hout⟩ := h.of_outline (k := ⟨j.unnumbered, .single 0⟩) hcounted hj
  rw [hcount] at hq'
  have heq := accepted_of_placed hq'
  rw [heq] at hq' hout
  exact ⟨hq', hout⟩

/-- Whether a line is read as an instruction, line numbers aside. -/
def ReadsAs (cx : Context) (l : LogicalLine) (i : Instruction) : Prop :=
  ∃ j, (Grammar.line l cx).result = .ok j ∧ j.unnumbered = i.unnumbered

/-- Whether lines are read as instructions that stand after some others. -/
def ReadAs : List Instruction → List LogicalLine → List Instruction → Prop
  | _, [], [] => True
  | before, l :: ls, i :: is => ReadsAs (contextAfter before) l i ∧ ReadAs (before ++ [i]) ls is
  | _, _, _ => False

/-- Whether instructions are taken one after the other after some others. -/
def AllAccepted : List Instruction → List Instruction → Prop
  | _, [] => True
  | before, i :: is => Accepted before i ∧ AllAccepted (before ++ [i]) is

variable {r : Progress} {ls : List LogicalLine} {es : List Entry} {before is : List Instruction}

/-- **A run leads where its instructions lead.** -/
theorem Run.outline (h : Run p ls es r) (hp : p.outline = (replay before).outline)
    (his : es.map (fun e => e.instruction.unnumbered) = is.map Instruction.unnumbered) :
    AllAccepted before is ∧ r.outline = (replay (before ++ is)).outline := by
  induction h generalizing before is with
  | nil p =>
    rw [List.map_nil, eq_comm, List.map_eq_nil_iff] at his
    rw [his, List.append_nil]
    exact ⟨trivial, hp⟩
  | cons hi hq hr ih =>
    obtain ⟨j, js, rfl, hij, hjs⟩ := List.map_eq_cons_iff.mp his.symm
    obtain ⟨hj, hout⟩ := hq.replayed hp hij.symm
    obtain ⟨hall, hout'⟩ := ih hout hjs.symm
    rw [List.append_assoc] at hout'
    exact ⟨⟨hj, hall⟩, hout'⟩

/-- A run of a file without an escape directive reads each line in the context after the
instructions before it. -/
theorem Run.readAs (h : Run p ls es r) (hp : p.outline = (replay before).outline)
    (hescape : p.scope.escape = defaultEscape)
    (his : es.map (fun e => e.instruction.unnumbered) = is.map Instruction.unnumbered) :
    ReadAs before ls is := by
  induction h generalizing before is with
  | nil p =>
    rw [List.map_nil, eq_comm, List.map_eq_nil_iff] at his
    rw [his]
    trivial
  | cons hi hq hr ih =>
    obtain ⟨j, js, rfl, hij, hjs⟩ := List.map_eq_cons_iff.mp his.symm
    obtain ⟨-, hout⟩ := hq.replayed hp hij.symm
    refine ⟨⟨_, ?_, hij.symm⟩, ih hout (hq.escape.trans hescape) hjs.symm⟩
    rw [← context_eq hp hescape]
    exact hi

/-- **Lines that are read as instructions that are taken make a run.** -/
theorem Run.of_readAs (hread : ReadAs before ls is) (hall : AllAccepted before is)
    (hp : p.outline = (replay before).outline) (hescape : p.scope.escape = defaultEscape) :
    ∃ es r, Run p ls es r ∧
      es.map (fun e => e.instruction.unnumbered) = is.map Instruction.unnumbered := by
  induction ls generalizing p before is with
  | nil =>
    cases is with
    | nil => exact ⟨[], p, Run.nil p, rfl⟩
    | cons i is => exact hread.elim
  | cons l ls ih =>
    cases is with
    | nil => exact hread.elim
    | cons i is =>
      obtain ⟨⟨j, hj, hij⟩, hread⟩ := hread
      obtain ⟨hi, hall⟩ := hall
      rw [← context_eq hp hescape] at hj
      have hcount : p.count = (replay before).count := (outline_eq_iff.mp hp).2.2.2.2
      have hcounted : (replay before).counted.outline = (p.noted l).outline :=
        (outline_noted hp l).symm
      have hi' : i.unnumbered.unnumbered = j.unnumbered := by
        rw [Instruction.unnumbered_unnumbered, hij]
      obtain ⟨q, hq, hout⟩ := Placed.of_outline (k := ⟨j, l.lines⟩) hi hcounted hi'
      rw [← hcount] at hq
      obtain ⟨es, r, hr, hes⟩ := ih hread hall hout.symm (hq.escape.trans hescape)
      refine ⟨_, r, Run.cons hj hq hr, ?_⟩
      rw [List.map_cons, List.map_cons, hes, hij]

end Progress

end Containerfile
