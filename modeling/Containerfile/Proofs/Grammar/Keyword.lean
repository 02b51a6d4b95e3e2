import Containerfile.Proofs.Grammar.Yields
import Containerfile.Proofs.Statement

/-! # What an instruction takes from its statement

An instruction has the keyword of its statement.  It has the heredocs of its statement as well, or
none where it cannot have any. -/
namespace Containerfile.Grammar

variable {cx : Context} {s : Statement}

/-- Whether a step has a keyword, and the heredocs of a statement or none. -/
def Takes (s : Statement) (k : Keyword) (st : Step) : Prop :=
  st.keyword = k ∧ (st.heredocs = s.heredocs ∨ st.heredocs = [])

/-- A grammar that ends in one kind of step takes what that step takes. -/
theorem yields_takes {α : Type} {k : Keyword} {x : Grammar α} {f : α → Step}
    (h : ∀ a, Takes s k (f a)) : Yields cx (Takes s k) (f <$> x) :=
  yields_map ((yields_trivial x).mono fun a _ => h a)

theorem takes_run : Yields cx (Takes s .run) (run s) := by
  rw [run]
  refine yields_after fun _ => ?_
  refine yields_after fun _ => ?_
  refine yields_after fun _ => ?_
  refine yields_after fun _ => ?_
  refine yields_after fun _ => ?_
  refine yields_after fun _ => ?_
  refine yields_after fun _ => ?_
  dsimp only
  split
  · exact yields_pure ⟨rfl, Or.inl rfl⟩
  · split
    · exact yields_after fun _ => yields_pure ⟨rfl, Or.inl rfl⟩
    · exact yields_after fun _ => yields_pure ⟨rfl, Or.inl rfl⟩

theorem heredocs_transfer {chown chmod : Option Text} {link : Bool} {exclude : List Text} :
    Yields cx (fun files : Transfer => files.heredocs = s.heredocs)
      (transfer s chown chmod link exclude) := by
  rw [transfer]
  refine yields_after fun p => ?_
  obtain ⟨ps, execForm⟩ := p
  dsimp only
  split
  · exact yields_malformed _ _
  · split
    · exact yields_malformed _ _
    · exact yields_pure rfl

theorem takes_copy : Yields cx (Takes s .copy) (copy s) := by
  rw [copy_eq]
  refine yields_after fun _ => ?_
  refine yields_after fun _ => ?_
  refine yields_after fun _ => ?_
  refine yields_after fun _ => ?_
  refine yields_after fun _ => ?_
  refine yields_after fun _ => ?_
  refine yields_after fun _ => ?_
  refine yields_after fun _ => ?_
  exact yields_bind heredocs_transfer fun files hfiles => yields_pure ⟨rfl, Or.inl hfiles⟩

theorem takes_add : Yields cx (Takes s .add) (add s) := by
  rw [add]
  refine yields_after fun _ => ?_
  refine yields_after fun _ => ?_
  refine yields_after fun _ => ?_
  refine yields_after fun _ => ?_
  refine yields_after fun _ => ?_
  refine yields_after fun _ => ?_
  refine yields_after fun _ => ?_
  exact yields_bind heredocs_transfer fun files hfiles => yields_pure ⟨rfl, Or.inl hfiles⟩

theorem takes_arg : Yields cx (Takes s .arg) (arg s) := by
  rw [arg]
  refine yields_after fun _ => ?_
  split
  · exact yields_malformed _ _
  · exact yields_after fun _ => yields_pure ⟨rfl, Or.inr rfl⟩

theorem takes_expose : Yields cx (Takes s .expose) (expose s) := by
  rw [expose]
  refine yields_after fun _ => ?_
  dsimp only
  split
  · exact yields_malformed _ _
  · exact yields_malformed _ _
  · exact yields_pure ⟨rfl, Or.inr rfl⟩

theorem takes_volume : Yields cx (Takes s .volume) (volume s) := by
  rw [volume]
  refine yields_after fun p => ?_
  obtain ⟨ps, execForm⟩ := p
  dsimp only
  split
  · exact yields_malformed _ _
  · split
    · exact yields_malformed _ _
    · exact yields_pure ⟨rfl, Or.inr rfl⟩

theorem takes_workdir : Yields cx (Takes s .workdir) (workdir s) := by
  rw [workdir]
  refine yields_after fun _ => ?_
  split
  · exact yields_malformed _ _
  · exact yields_pure ⟨rfl, Or.inr rfl⟩

theorem takes_user : Yields cx (Takes s .user) (user s) := by
  rw [user]
  refine yields_after fun _ => ?_
  split
  · rename_i spec
    cases hc : Text.splitOnce ':' spec with
    | none =>
      dsimp only
      split
      · exact yields_malformed _ _
      · exact yields_pure ⟨rfl, Or.inr rfl⟩
    | some p =>
      dsimp only
      split
      · exact yields_malformed _ _
      · exact yields_pure ⟨rfl, Or.inr rfl⟩
  · exact yields_malformed _ _

theorem takes_shell : Yields cx (Takes s .shell) (shell s) := by
  rw [shell]
  split
  · exact yields_malformed _ _
  · exact yields_pure ⟨rfl, Or.inr rfl⟩
  · exact yields_malformed _ _

theorem takes_stopsignal : Yields cx (Takes s .stopsignal) (stopsignal s) := by
  rw [stopsignal]
  refine yields_after fun _ => ?_
  split
  · exact yields_pure ⟨rfl, Or.inr rfl⟩
  · exact yields_malformed _ _

theorem takes_healthcheck : Yields cx (Takes s .healthcheck) (healthcheck s) := by
  rw [healthcheck]
  refine yields_after fun _ => ?_
  dsimp only
  split
  · split
    · exact yields_malformed _ _
    · exact yields_pure ⟨rfl, Or.inr rfl⟩
  · split
    · exact yields_malformed _ _
    · refine yields_after fun _ => ?_
      refine yields_after fun _ => ?_
      refine yields_after fun _ => ?_
      refine yields_after fun _ => ?_
      refine yields_after fun _ => ?_
      refine yields_after fun _ => ?_
      exact yields_pure ⟨rfl, Or.inr rfl⟩

theorem takes_step : Yields cx (Takes s s.keyword) (step s) := by
  unfold step
  cases s.keyword with
  | run => exact takes_run
  | cmd => exact yields_takes fun _ => ⟨rfl, Or.inr rfl⟩
  | entrypoint => exact yields_takes fun _ => ⟨rfl, Or.inr rfl⟩
  | copy => exact takes_copy
  | add => exact takes_add
  | env => exact yields_takes fun _ => ⟨rfl, Or.inr rfl⟩
  | label => exact yields_takes fun _ => ⟨rfl, Or.inr rfl⟩
  | arg => exact takes_arg
  | expose => exact takes_expose
  | volume => exact takes_volume
  | workdir => exact takes_workdir
  | user => exact takes_user
  | shell => exact takes_shell
  | stopsignal => exact takes_stopsignal
  | healthcheck => exact takes_healthcheck
  | fromImage | onbuild | maintainer => exact yields_fail _

/-- **An instruction takes its keyword and its heredocs from its statement.** -/
theorem takes_instruction :
    Yields cx
      (fun i => i.keyword = s.keyword ∧ (i.heredocs = s.heredocs ∨ i.heredocs = []))
      (instruction s) := by
  have hstep : Yields cx
      (fun i : Instruction =>
        i.keyword = s.keyword ∧ (i.heredocs = s.heredocs ∨ i.heredocs = []))
      (.step <$> step s) := yields_map takes_step
  unfold instruction
  cases hk : s.keyword with
  | fromImage => exact yields_map ((yields_trivial _).mono fun _ _ => ⟨rfl, Or.inr rfl⟩)
  | onbuild =>
    apply yields_map
    rw [onbuild]
    split
    · exact yields_malformed _ _
    · refine yields_bind (yields_ofExcept fun payload hp => Statement.read_lines hp)
        fun payload hpayload => ?_
      -- the trigger was read with the heredocs of the statement
      intro st hst
      obtain ⟨-, hst⟩ := takes_step st hst
      rw [hpayload.2] at hst
      exact ⟨rfl, hst⟩
  | maintainer => exact yields_map ((yields_trivial _).mono fun _ _ => ⟨rfl, Or.inr rfl⟩)
  | _ =>
    rw [hk] at hstep
    exact hstep

/-- An instruction has the heredocs of its logical line or none. -/
theorem heredocs_line {l : LogicalLine} :
    Yields cx (fun i => i.heredocs = l.heredocs ∨ i.heredocs = []) (line l) := by
  refine yields_bind (yields_ofExcept fun s hs => Statement.read_lines hs) fun s hs => ?_
  refine takes_instruction.mono fun i hi => ?_
  rw [← hs.2]
  exact hi.2

/-- An instruction has the keyword that its logical line begins with. -/
theorem keyword_line {l : LogicalLine} :
    Yields cx (fun i => Keyword.read? (Text.firstWord l.text).1 = some i.keyword) (line l) := by
  refine yields_bind (yields_ofExcept fun s hs => Statement.keyword_of_read hs) fun s hs => ?_
  refine takes_instruction.mono fun i hi => ?_
  rw [hs, hi.1]

end Containerfile.Grammar
