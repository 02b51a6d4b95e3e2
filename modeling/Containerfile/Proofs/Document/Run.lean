import Containerfile.Proofs.Assembly
import Containerfile.Proofs.Document.Progress
import Containerfile.Proofs.Grammar.Keyword
import Containerfile.Proofs.Grammar.OneLine
import Containerfile.Proofs.Scope

/-! # Strict readings as runs

With the default settings every line has to be taken.  `Progress.Placed` lists the three ways in
which an instruction can be, and `Progress.Run` strings such steps together: a reading that comes to
its end is a run (`Progress.takeAll_eq_iff`), and the entries of the document are those of the run
in its order (`Document.read_eq_ok_iff`). -/
namespace Containerfile

namespace Progress

/-! ## Steps -/

/-- The three ways in which an instruction is taken: a FROM opens a stage, an ARG stands before the
first stage, anything else joins the current stage. -/
inductive Placed (p : Progress) (index : Nat) (e : Entry) : Progress → Prop
  | opens {base : BaseImage} {a : Assembly} (hi : e.instruction = .fromImage base)
      (ha : p.assembly.openStage base e.lines = .ok a) : Placed p index e (p.opened a)
  | declares (hi : ∀ base, e.instruction ≠ .fromImage base) (hs : p.assembly.hasStage = false)
      (hk : e.keyword = .arg) :
      Placed p index e
        { p with scope := declare p.scope index e.instruction, globals := p.globals ++ [e] }
  | joins {a : Assembly} (hi : ∀ base, e.instruction ≠ .fromImage base)
      (ha : p.assembly.push e = .ok a) :
      Placed p index e { p with assembly := a, scope := declare p.scope index e.instruction }

variable {p q r : Progress} {index : Nat} {e : Entry}

/-- What is not a FROM is an ARG before the first stage or is pushed. -/
theorem place_of_not_from (settings : Settings) (p : Progress)
    (hi : ∀ base, e.instruction ≠ .fromImage base) :
    p.place settings index e =
      if !p.assembly.hasStage && e.keyword == .arg then
        ({ p with scope := declare p.scope index e.instruction, globals := p.globals ++ [e] }, none)
      else
        match p.assembly.push e with
        | .ok a => ({ p with assembly := a, scope := declare p.scope index e.instruction }, none)
        | .error f => (p, some f) := by
  obtain ⟨i, lines⟩ := e
  cases i with
  | fromImage base => exact absurd rfl (hi base)
  | _ => rfl

/-- **Taking an instruction succeeds in the three ways and in no other.** -/
theorem place_eq_iff : p.place {} index e = (q, none) ↔ Placed p index e q := by
  constructor
  · intro h
    by_cases hi : ∃ base, e.instruction = .fromImage base
    · obtain ⟨base, hi⟩ := hi
      rw [place, hi] at h
      dsimp only at h
      rcases openStage_cases {} p base e.lines with
        ⟨a, ha, hopen⟩ | ⟨f, -, -, ⟨-, hopen⟩ | ⟨hfalse, -⟩⟩
      · rw [hopen] at h
        cases h
        exact Placed.opens hi ha
      · rw [hopen] at h
        cases h
      · cases hfalse
    · have hi' : ∀ base, e.instruction ≠ .fromImage base := fun base hb => hi ⟨base, hb⟩
      rw [place_of_not_from {} p hi'] at h
      split at h
      · rename_i hglobal
        cases h
        rw [Bool.and_eq_true, Bool.not_eq_true', beq_iff_eq] at hglobal
        exact Placed.declares hi' hglobal.1 hglobal.2
      · cases ha : p.assembly.push e with
        | error f =>
          rw [ha] at h
          cases h
        | ok a =>
          rw [ha] at h
          cases h
          exact Placed.joins hi' ha
  · intro h
    cases h with
    | opens hi ha =>
      rw [place, hi]
      dsimp only
      rw [openStage, ha]
      rfl
    | declares hi hs hk =>
      rw [place_of_not_from {} p hi, hs, hk]
      rfl
    | joins hi ha =>
      rw [place_of_not_from {} p hi, (Assembly.push_eq_ok_iff.mp ha).1, ha]
      rfl

/-! ## Runs -/

/-- A place where a line was counted and its undeclared names were noted. -/
def noted (p : Progress) (l : LogicalLine) : Progress :=
  { p with count := p.count + 1 }.report
    ((Grammar.line l (p.context {})).undeclared.map (undeclaredWarning l.lines))

/-- Lines that are all taken, the entries that they become and the place after them. -/
inductive Run : Progress → List LogicalLine → List Entry → Progress → Prop
  | nil (p : Progress) : Run p [] [] p
  | cons {p q r : Progress} {l : LogicalLine} {ls : List LogicalLine} {i : Instruction}
      {es : List Entry} (hi : (Grammar.line l (p.context {})).result = .ok i)
      (hq : Placed (p.noted l) p.count ⟨i, l.lines⟩ q) (hr : Run q ls es r) :
      Run p (l :: ls) (⟨i, l.lines⟩ :: es) r

/-- One line is taken if it can be read and its instruction is taken. -/
theorem take_eq_iff {l : LogicalLine} :
    p.take {} l = (q, none) ↔
      ∃ i, (Grammar.line l (p.context {})).result = .ok i ∧
        Placed (p.noted l) p.count ⟨i, l.lines⟩ q := by
  rw [take_eq, absorb, noted]
  generalize Grammar.line l (p.context {}) = o
  cases o.result with
  | error f =>
    constructor
    · intro h
      cases h
    · rintro ⟨i, hi, -⟩
      cases hi
  | ok i =>
    constructor
    · intro h
      exact ⟨i, rfl, place_eq_iff.mp h⟩
    · rintro ⟨j, hj, hq⟩
      cases hj
      exact place_eq_iff.mpr hq

/-- **A strict reading of lines that comes to its end is a run.** -/
theorem takeAll_eq_iff {ls : List LogicalLine} :
    p.takeAll {} ls = (r, none) ↔ ∃ es, Run p ls es r := by
  induction ls generalizing p with
  | nil =>
    constructor
    · intro h
      cases h
      exact ⟨[], Run.nil _⟩
    · rintro ⟨es, h⟩
      cases h
      rfl
  | cons l ls ih =>
    -- the default settings record no failure
    have hstrict : ∀ (q : Progress) (f : Failure), q.recover {} f = (q, some f) :=
      fun q f => rfl
    rw [takeAll]
    constructor
    · intro h
      rcases htake : p.take {} l with ⟨q, _ | f⟩
      · rw [htake] at h
        obtain ⟨i, hi, hq⟩ := take_eq_iff.mp htake
        obtain ⟨es, hes⟩ := ih.mp h
        exact ⟨_, Run.cons hi hq hes⟩
      · rw [htake] at h
        dsimp only at h
        rw [hstrict] at h
        cases h
    · rintro ⟨es, h⟩
      cases h with
      | cons hi hq hr =>
        rw [take_eq_iff.mpr ⟨_, hi, hq⟩]
        exact ih.mpr ⟨_, hr⟩

/-! ## Entries -/

/-- All entries so far, those before the first stage first. -/
def entries (p : Progress) : List Entry :=
  p.globals ++ p.assembly.stages.toList.flatMap Stage.entries

/-- An instruction that is taken becomes the last entry. -/
theorem Placed.entries (h : Placed p index e q) : q.entries = p.entries ++ [e] := by
  obtain ⟨i, lines⟩ := e
  cases h with
  | opens hi ha =>
    cases hi
    obtain ⟨-, rfl⟩ := Assembly.openStage_eq_ok_iff.mp ha
    simp [Progress.entries, opened, Assembly.stageFor, Stage.entries, Stage.openingEntry]
  | declares hi hs hk =>
    -- no stage is open yet, so there are no entries after the global ones
    have hempty : p.assembly.stages.toList = [] := by
      rw [Assembly.hasStage] at hs
      cases hstages : p.assembly.stages with
      | empty => rfl
      | writing settled current =>
        rw [hstages] at hs
        cases hs
    simp [Progress.entries, hempty]
  | joins hi ha =>
    obtain ⟨hs, rfl⟩ := Assembly.push_eq_ok_iff.mp ha
    rw [Assembly.hasStage] at hs
    cases hstages : p.assembly.stages with
    | empty =>
      rw [hstages] at hs
      cases hs
    | writing settled current =>
      simp [Progress.entries, hstages, Draft.modify, Draft.toList, Stage.entries, Stage.add,
        Stage.openingEntry]

theorem Run.entries {ls : List LogicalLine} {es : List Entry} (h : Run p ls es r) :
    r.entries = p.entries ++ es := by
  induction h with
  | nil p => exact (List.append_nil _).symm
  | @cons p q r l ls i es hi hq hr ih =>
    have hnoted : (p.noted l).entries = p.entries := rfl
    rw [ih, hq.entries, hnoted, List.append_assoc]
    rfl

/-! ## Texts on one line -/

end Progress

theorem Layer.oneLine_bind {b : Binding} {l : Layer} (hb : b.OneLine) (hl : ∀ c ∈ l, c.OneLine) :
    ∀ c ∈ l.bind b, c.OneLine := by
  intro c hc
  rcases eq_or_mem_of_mem_bind hc with rfl | hc
  · exact hb
  · exact hl c hc

namespace Scope

variable {sc : Scope}

theorem OneLine.bind (h : sc.OneLine) {b : Binding} (hb : b.OneLine) : (sc.bind b).OneLine := by
  rw [Scope.bind]
  cases hs : sc.stages with
  | empty =>
    exact ⟨Layer.oneLine_bind hb h.global, fun l hl => absurd hl List.not_mem_nil⟩
  | writing settled current =>
    have hstages := h.stages
    rw [hs, Draft.toList, List.forall_mem_append, List.forall_mem_singleton] at hstages
    refine ⟨h.global, ?_⟩
    show ∀ l ∈ settled ++ [current.bind b], ∀ c ∈ l, c.OneLine
    rw [List.forall_mem_append, List.forall_mem_singleton]
    exact ⟨hstages.1, Layer.oneLine_bind hb hstages.2⟩

theorem OneLine.declareArg (h : sc.OneLine) (name : Text) {default : Option Text}
    (hd : ∀ v ∈ default, Text.OneLine v) (index : Nat) :
    (sc.declareArg name default index).OneLine := by
  apply h.bind
  intro v hv
  change v ∈ sc.argValue name default at hv
  unfold argValue at hv
  split at hv
  · exact hd v hv
  · cases hv
  · obtain ⟨b, hb, hbv⟩ := Option.bind_eq_some_iff.mp hv
    exact h.global b (Layer.mem_of_get? hb) v hbv

theorem OneLine.declareEnv (h : sc.OneLine) (name : Text) {value : Text}
    (hv : Text.OneLine value) (index : Nat) : (sc.declareEnv name value index).OneLine := by
  apply h.bind
  intro v hv'
  cases hv'
  exact hv

/-- A new stage takes over values and makes none. -/
theorem OneLine.enterStage (h : sc.OneLine) : sc.enterStage.OneLine := by
  refine ⟨h.global, ?_⟩
  show ∀ l ∈ sc.stages.toList ++ [inherited sc.stages.size (sc.stages.current?.getD [])],
    ∀ b ∈ l, b.OneLine
  rw [List.forall_mem_append, List.forall_mem_singleton]
  refine ⟨h.stages, ?_⟩
  intro b hb
  rw [inherited] at hb
  obtain ⟨c, hc, rfl⟩ := List.mem_map.mp hb
  exact h.current c (List.mem_of_mem_filter hc)

end Scope

namespace Progress

variable {p q r : Progress} {index : Nat} {e : Entry}

/-- Instructions on one line declare values on one line. -/
theorem oneLine_declare {sc : Scope} {i : Instruction} (h : sc.OneLine) (hi : i.OneLine)
    (index : Nat) : (declare sc index i).OneLine := by
  refine declare_invariant ?_ ?_ h
  · rintro args rfl a ha sc hsc
    refine hsc.declareArg a.name (fun v hv => hi v ?_) index
    exact List.mem_flatMap.mpr ⟨a, ha, List.mem_cons_of_mem _ (Option.mem_toList.mpr hv)⟩
  · rintro vars rfl v hv sc hsc
    refine hsc.declareEnv v.key (hi v.value ?_) index
    exact List.mem_flatMap.mpr ⟨v, hv, by simp [KeyValue.texts]⟩

theorem Placed.oneLine (h : Placed p index e q) (hp : p.scope.OneLine)
    (he : e.instruction.OneLine) : q.scope.OneLine := by
  cases h with
  | opens hi ha => exact hp.enterStage
  | declares hi hs hk => exact oneLine_declare hp he index
  | joins hi ha => exact oneLine_declare hp he index

/-- **What is read from sound lines can be printed line by line.** -/
theorem Run.printable {ls : List LogicalLine} {es : List Entry} (h : Run p ls es r)
    (hp : p.scope.OneLine) (hls : ∀ l ∈ ls, l.Sound) : ∀ e ∈ es, e.instruction.Printable := by
  induction h with
  | nil p =>
    intro e he
    cases he
  | @cons p q r l ls i es hi hq hr ih =>
    rw [List.forall_mem_cons] at hls
    have hcx : (p.context {}).OneLine := by
      intro scope hscope
      cases hscope
      exact hp
    have hone : i.OneLine := Grammar.oneLine_line hcx hls.1.text i hi
    have hdelimited : ∀ k ∈ i.heredocs, k.Delimited := by
      rcases Grammar.heredocs_line i hi with hh | hh
      · rw [hh]
        exact hls.1.heredocs
      · rw [hh]
        intro k hk
        cases hk
    rw [List.forall_mem_cons]
    exact ⟨⟨hone, hdelimited⟩, ih (hq.oneLine hp hone) hls.2⟩

/-! ## Documents -/

/-- The document at a place after the last line. -/
def document (p : Progress) (directives : Directives) : Document :=
  let stages := p.assembly.finish p.scope
  { directives := directives
    globalArgs := p.scope.global
    globals := p.globals
    stages := stages
    diagnostics := p.diagnostics ++ Lint.run directives.skippedChecks stages }

/-- Whether nothing shows at the end that stands in the way of a document. -/
def Complete (p : Progress) : Prop :=
  p.assembly.lateFailures = [] ∧ checkDocument p.count (p.assembly.finish p.scope) = none

theorem entries_document (p : Progress) (directives : Directives) :
    (p.document directives).entries = p.entries := by
  rw [Document.entries, Progress.entries]
  show p.globals ++ (p.assembly.finish p.scope).flatMap Stage.entries = _
  rw [Assembly.finish, List.flatMap_map]
  rfl

theorem finish_eq_ok_iff {directives : Directives} {d : Document} :
    p.finish {} directives = .ok d ↔ p.Complete ∧ d = p.document directives := by
  rw [finish_eq, Complete]
  cases hlate : p.assembly.lateFailures with
  | cons f fs =>
    constructor
    · intro h
      cases h
    · rintro ⟨⟨h, -⟩, -⟩
      cases h
  | nil =>
    rw [recoverAll, conclude]
    cases hc : checkDocument p.count (p.assembly.finish p.scope) with
    | some f =>
      constructor
      · intro h
        cases h
      · rintro ⟨⟨-, h⟩, -⟩
        cases h
    | none =>
      constructor
      · intro h
        cases h
        exact ⟨⟨rfl, rfl⟩, rfl⟩
      · rintro ⟨-, rfl⟩
        rfl

end Progress

namespace Document

/-- **A text is a document if its lines make a run that nothing at the end stands against.** -/
theorem read_eq_ok_iff {t : Text} {d : Document} :
    read {} t = .ok d ↔
      (Layout.read true t.lines).failure = none ∧
        ∃ es p,
          Progress.Run (start (Layout.read true t.lines)) (Layout.read true t.lines).lines es p ∧
          p.Complete ∧ d = p.document (Layout.read true t.lines).preamble.directives := by
  have hescape : ({} : Settings).escapeDirective = true := rfl
  rw [read, readLines, readFully_eq, hescape]
  generalize Layout.read true t.lines = layout
  rcases ha : (start layout).takeAll {} layout.lines with ⟨p, _ | f⟩
  · rw [complete]
    cases hl : layout.failure with
    | some f =>
      constructor
      · intro h
        cases h
      · rintro ⟨h, -⟩
        cases h
    | none =>
      dsimp only
      constructor
      · intro h
        cases hf : p.finish {} layout.preamble.directives with
        | error f =>
          rw [hf] at h
          cases h
        | ok e =>
          rw [hf] at h
          cases h
          obtain ⟨es, hes⟩ := Progress.takeAll_eq_iff.mp ha
          exact ⟨rfl, es, p, hes, Progress.finish_eq_ok_iff.mp hf⟩
      · rintro ⟨-, es, q, hq, hd⟩
        have hrun := Progress.takeAll_eq_iff.mpr ⟨es, hq⟩
        rw [ha] at hrun
        cases hrun
        rw [Progress.finish_eq_ok_iff.mpr hd]
        rfl
  · rw [complete]
    constructor
    · intro h
      cases h
    · rintro ⟨-, es, q, hq, -⟩
      have hrun := Progress.takeAll_eq_iff.mpr ⟨es, hq⟩
      rw [ha] at hrun
      cases hrun

end Document

end Containerfile
