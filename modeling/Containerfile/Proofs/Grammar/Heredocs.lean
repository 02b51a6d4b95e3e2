import Containerfile.Proofs.Grammar.Keyword
import Containerfile.Proofs.Line.Bodies

/-! # Grammars pass heredocs on

No grammar looks into a heredoc.  RUN, COPY and ADD hand on those of their statement as
they are, RUN asks whether there are any, and everything else leaves them out.  So heredocs
may be changed before or after a statement is read, to the same effect: for every change
`g` of heredocs, reading a changed statement is reading the statement and changing the
result (`Grammar.instruction_mapHeredocs`, `Grammar.line_of_changed`), failures and
references to names included. -/
namespace Containerfile

/-! ## Changes of heredocs -/

/-- A statement with its heredocs changed. -/
def Statement.mapHeredocs (g : Heredoc → Heredoc) (s : Statement) : Statement :=
  { s with heredocs := s.heredocs.map g }

/-- What COPY and ADD have in common, with the heredocs changed. -/
def Transfer.mapHeredocs (g : Heredoc → Heredoc) (files : Transfer) : Transfer :=
  { files with heredocs := files.heredocs.map g }

/-- A step with its heredocs changed. -/
def Step.mapHeredocs (g : Heredoc → Heredoc) : Step → Step
  | run r => run { r with heredocs := r.heredocs.map g }
  | copy files source parents => copy (files.mapHeredocs g) source parents
  | add files checksum keepGitDir => add (files.mapHeredocs g) checksum keepGitDir
  | s => s

/-- An instruction with its heredocs, or those of its trigger, changed. -/
def Instruction.mapHeredocs (g : Heredoc → Heredoc) : Instruction → Instruction
  | step s => step (s.mapHeredocs g)
  | onbuild s => onbuild (s.mapHeredocs g)
  | i => i

variable (g : Heredoc → Heredoc)

@[simp] theorem Step.keyword_mapHeredocs (s : Step) : (s.mapHeredocs g).keyword = s.keyword := by
  cases s <;> rfl

@[simp] theorem Instruction.keyword_mapHeredocs (i : Instruction) :
    (i.mapHeredocs g).keyword = i.keyword := by
  cases i with
  | step s => exact s.keyword_mapHeredocs g
  | _ => rfl

/-! ## Grammars -/

namespace Grammar

variable (s : Statement)

/-- RUN hands its heredocs on, and only asks whether there are any. -/
theorem run_mapHeredocs : run (s.mapHeredocs g) = Step.mapHeredocs g <$> run s := by
  have hempty : (s.mapHeredocs g).heredocs.isEmpty = s.heredocs.isEmpty := List.isEmpty_map
  have hargs : (s.mapHeredocs g).args = s.args := rfl
  have hdone : ∀ (c : Command) (mounts : List Mount) (network : Option NetworkMode)
      (security : Option SecurityMode),
      (pure (.run ⟨c, mounts, network, security, (s.mapHeredocs g).heredocs⟩) : Grammar Step) =
        Step.mapHeredocs g <$> pure (.run ⟨c, mounts, network, security, s.heredocs⟩) := by
    intro c mounts network security
    rw [map_pure]
    rfl
  unfold run
  rw [hempty, hargs, map_bind]
  refine bind_congr fun _ => ?_
  rw [map_bind]
  refine bind_congr fun values => ?_
  rw [map_bind]
  refine bind_congr fun mounts => ?_
  rw [map_bind]
  refine bind_congr fun value => ?_
  rw [map_bind]
  refine bind_congr fun network => ?_
  rw [map_bind]
  refine bind_congr fun value => ?_
  rw [map_bind]
  refine bind_congr fun security => ?_
  cases s.args with
  | exec items =>
    dsimp only
    rw [map_bind]
    exact bind_congr fun c => hdone c mounts network security
  | text t =>
    dsimp only
    split
    · rw [map_bind]
      exact bind_congr fun c => hdone c mounts network security
    · rw [map_bind]
      exact bind_congr fun c => hdone c mounts network security

/-- COPY and ADD hand their heredocs on. -/
theorem transfer_mapHeredocs (chown chmod : Option Text) (link : Bool) (exclude : List Text) :
    transfer (s.mapHeredocs g) chown chmod link exclude =
      Transfer.mapHeredocs g <$> transfer s chown chmod link exclude := by
  unfold transfer
  rw [map_bind]
  refine bind_congr fun p => ?_
  obtain ⟨paths, execForm⟩ := p
  dsimp only
  cases paths.getLast? with
  | none => rfl
  | some destination =>
    dsimp only
    split
    · rfl
    · rw [map_pure]
      rfl

theorem copyFrom_mapHeredocs (source : Option StageRef) :
    copyFrom (s.mapHeredocs g) source = Step.mapHeredocs g <$> copyFrom s source := by
  unfold copyFrom
  rw [map_bind]
  refine bind_congr fun chown => ?_
  rw [map_bind]
  refine bind_congr fun chmod => ?_
  rw [map_bind]
  refine bind_congr fun link => ?_
  rw [map_bind]
  refine bind_congr fun parents => ?_
  rw [map_bind]
  refine bind_congr fun exclude => ?_
  rw [transfer_mapHeredocs, bind_map_left, map_bind]
  refine bind_congr fun files => ?_
  rw [map_pure]
  rfl

theorem copy_mapHeredocs : copy (s.mapHeredocs g) = Step.mapHeredocs g <$> copy s := by
  rw [copy_eq, copy_eq, map_bind]
  refine bind_congr fun _ => ?_
  rw [map_bind]
  refine bind_congr fun value => ?_
  rw [map_bind]
  exact bind_congr (x := optionalSource s value) fun source => copyFrom_mapHeredocs g s source

theorem add_mapHeredocs : add (s.mapHeredocs g) = Step.mapHeredocs g <$> add s := by
  unfold add
  rw [map_bind]
  refine bind_congr fun _ => ?_
  rw [map_bind]
  refine bind_congr fun chown => ?_
  rw [map_bind]
  refine bind_congr fun chmod => ?_
  rw [map_bind]
  refine bind_congr fun checksum => ?_
  rw [map_bind]
  refine bind_congr fun keepGitDir => ?_
  rw [map_bind]
  refine bind_congr fun link => ?_
  rw [map_bind]
  refine bind_congr fun exclude => ?_
  rw [transfer_mapHeredocs, bind_map_left, map_bind]
  refine bind_congr fun files => ?_
  rw [map_pure]
  rfl

/-- Changing what is never read changes nothing. -/
theorem map_of_yields {α : Type} {f : α → α} {x : Grammar α}
    (h : ∀ cx, Yields cx (fun a => f a = a) x) : f <$> x = x := by
  funext cx
  rw [map_run]
  cases hx : x cx with
  | mk result names =>
    cases result with
    | error e => rfl
    | ok a => rw [Except.map, h cx a (by rw [hx])]

/-- Whether the steps of a keyword hold heredocs. -/
def holdsHeredocs (k : Keyword) : Bool := k == .run || k == .copy || k == .add

/-- **Reading a step whose heredocs are changed is reading the step and changing its heredocs.** -/
theorem step_mapHeredocs : step (s.mapHeredocs g) = Step.mapHeredocs g <$> step s := by
  have hkeyword : (s.mapHeredocs g).keyword = s.keyword := rfl
  by_cases hholds : holdsHeredocs s.keyword = true
  · unfold step
    rw [hkeyword]
    cases hk : s.keyword with
    | run => exact run_mapHeredocs g s
    | copy => exact copy_mapHeredocs g s
    | add => exact add_mapHeredocs g s
    | _ =>
      rw [hk] at hholds
      cases hholds
  · -- the other steps neither ask for heredocs nor hold any
    have hsame : step (s.mapHeredocs g) = step s := by
      unfold step
      rw [hkeyword]
      cases hk : s.keyword with
      | run | copy | add => exact absurd (by rw [hk]; rfl) hholds
      | _ => rfl
    rw [hsame]
    refine (map_of_yields fun cx => takes_step.mono fun st hst => ?_).symm
    cases st with
    | run r => exact absurd (by rw [← hst.1]; rfl) hholds
    | copy files source parents => exact absurd (by rw [← hst.1]; rfl) hholds
    | add files checksum keepGitDir => exact absurd (by rw [← hst.1]; rfl) hholds
    | _ => rfl

end Grammar

/-- A statement is taken apart in the same way whatever its heredocs are. -/
theorem Statement.read_mapHeredocs (t : Text) (lines : LineSpan) (hs : List Heredoc) :
    read t lines (hs.map g) = (read t lines hs).map (mapHeredocs g) := by
  rw [read_eq, read_eq]
  cases Keyword.read? (Text.firstWord t).1 with
  | none => rfl
  | some k =>
    dsimp only
    cases readArguments k (splitFlags k (Text.firstWord t).2).2 lines with
    | error f => rfl
    | ok args => rfl

namespace Grammar

/-- A trigger is a statement of its own, with the heredocs of the instruction. -/
theorem onbuild_mapHeredocs (s : Statement) :
    onbuild (s.mapHeredocs g) = Step.mapHeredocs g <$> onbuild s := by
  have htext : (s.mapHeredocs g).text = s.text := rfl
  unfold onbuild
  rw [htext]
  split
  · rfl
  · have hpayload : Statement.read s.text s.lines (s.mapHeredocs g).heredocs =
        (Statement.read s.text s.lines s.heredocs).map (Statement.mapHeredocs g) :=
      Statement.read_mapHeredocs g _ _ _
    have hlines : (s.mapHeredocs g).lines = s.lines := rfl
    rw [hlines, hpayload, map_bind]
    funext cx
    cases Statement.read s.text s.lines s.heredocs with
    | error f => rfl
    | ok payload =>
      have hstep : asTrigger (step (payload.mapHeredocs g)) =
          Step.mapHeredocs g <$> asTrigger (step payload) := by
        funext cx
        rw [map_run, asTrigger, step_mapHeredocs, map_run]
        rfl
      show (pure (payload.mapHeredocs g) >>= fun p => asTrigger (step p)) cx =
        (pure payload >>= fun p => Step.mapHeredocs g <$> asTrigger (step p)) cx
      rw [pure_bind, pure_bind, hstep]

/-- **Heredocs may be changed before or after an instruction is read.** -/
theorem instruction_mapHeredocs (s : Statement) :
    instruction (s.mapHeredocs g) = Instruction.mapHeredocs g <$> instruction s := by
  have hkeyword : (s.mapHeredocs g).keyword = s.keyword := rfl
  have hstep : Instruction.step <$> step (s.mapHeredocs g) =
      Instruction.mapHeredocs g <$> Instruction.step <$> step s := by
    rw [step_mapHeredocs, ← comp_map, ← comp_map]
    rfl
  unfold instruction
  rw [hkeyword]
  cases s.keyword with
  | fromImage =>
    rw [← comp_map]
    rfl
  | maintainer =>
    rw [← comp_map]
    rfl
  | onbuild =>
    rw [onbuild_mapHeredocs, ← comp_map, ← comp_map]
    rfl
  | _ => exact hstep

end Grammar

/-- **A logical line with its heredocs changed is read as the same instruction with its heredocs
changed.** -/
theorem Grammar.line_of_changed {l l' : LogicalLine} (h : l.Changed g l') :
    line l' = Instruction.mapHeredocs g <$> line l := by
  have hread : Statement.ofLine l' = (Statement.ofLine l).map (Statement.mapHeredocs g) := by
    rw [Statement.ofLine, Statement.ofLine, h.lines, h.text, h.heredocs]
    exact Statement.read_mapHeredocs g _ _ _
  unfold line
  rw [hread, map_bind]
  funext cx
  cases Statement.ofLine l with
  | error f => rfl
  | ok s =>
    show (pure (s.mapHeredocs g) >>= instruction) cx =
      (pure s >>= fun s => Instruction.mapHeredocs g <$> instruction s) cx
    rw [pure_bind, pure_bind, instruction_mapHeredocs]

end Containerfile
