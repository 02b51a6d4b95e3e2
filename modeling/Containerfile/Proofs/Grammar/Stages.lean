import Containerfile.Proofs.Grammar.Keyword

/-! # What instructions say about stages

An instruction names stages in two places.  A FROM may give its stage a name, which has the form of
a stage name; a COPY may take files from a stage, which is one that its context resolves to an
earlier one.  A trigger names no stage at all, since it runs in another build.  `Instruction.Fits`
says so of an instruction and the names of the stages it was read after (`Grammar.fits_line`). -/
namespace Containerfile

/-- What a step takes files from, if it says so. -/
def Step.source? : Step → Option StageRef
  | copy _ source _ => source
  | _ => none

/-- What an instruction or its trigger takes files from, if it says so. -/
def Instruction.source? : Instruction → Option StageRef
  | step st | onbuild st => st.source?
  | fromImage _ | maintainer _ => none

/-- Only COPY takes files from somewhere. -/
theorem Step.source?_of_ne {st : Step} (h : st.keyword ≠ .copy) : st.source? = none := by
  cases st with
  | copy files source parents => exact absurd rfl h
  | _ => rfl

/-- Whether what an instruction says about stages is right after stages with some names. -/
structure Instruction.Fits (aliases : Aliases) (i : Instruction) : Prop where
  named : ∀ base, i = .fromImage base → ∀ name ∈ base.stageName, Grammar.isStageName name = true
  resolved : ∀ index name, i.source? = some (.stage index name) →
    aliases.resolveEarlier name = some index

namespace Grammar

variable {cx : Context} {s : Statement}

/-- Whether a source that is a stage was resolved in a context. -/
def Resolves (cx : Context) (r : Option StageRef) : Prop :=
  ∀ index name, r = some (.stage index name) →
    cx.deferred = false ∧ cx.aliases.resolveEarlier name = some index

theorem resolves_source (value : Text) :
    Yields cx (fun r => Resolves cx (some r)) (source s value) := by
  rw [source]
  refine yields_bind yields_context fun d hd => ?_
  obtain rfl := hd
  split
  · exact yields_pure fun index name h => by cases h
  · rename_i hdeferred
    rw [Bool.not_eq_true] at hdeferred
    split
    · rename_i index hindex
      refine yields_pure fun index' name h => ?_
      cases h
      exact ⟨hdeferred, hindex⟩
    · split
      · split
        · exact yields_pure fun index name h => by cases h
        · exact yields_malformed _ _
      · exact yields_fail _

theorem source?_copyFrom (r : Option StageRef) :
    Yields cx (fun st => st.source? = r) (copyFrom s r) := by
  refine yields_after fun _ => ?_
  refine yields_after fun _ => ?_
  refine yields_after fun _ => ?_
  refine yields_after fun _ => ?_
  refine yields_after fun _ => ?_
  exact yields_after fun _ => yields_pure rfl

theorem resolves_copy : Yields cx (fun st => Resolves cx st.source?) (copy s) := by
  rw [copy_eq]
  refine yields_after fun _ => ?_
  refine yields_after fun value => ?_
  refine yields_bind (P := Resolves cx) ?_ fun r hr => ?_
  · rcases value with _ | value
    · exact yields_pure fun index name h => by cases h
    · exact yields_map (resolves_source value)
  · exact (source?_copyFrom r).mono fun st hst => by rwa [hst]

theorem resolves_step : Yields cx (fun st => Resolves cx st.source?) (step s) := by
  by_cases hk : s.keyword = .copy
  · have hstep : step s = copy s := by
      unfold step
      rw [hk]
    rw [hstep]
    exact resolves_copy
  · refine takes_step.mono fun st hst index name h => ?_
    rw [Step.source?_of_ne (by rw [hst.1]; exact hk)] at h
    cases h

/-- A trigger takes files from no stage. -/
theorem source?_onbuild :
    Yields cx (fun st => ∀ index name, st.source? ≠ some (.stage index name)) (onbuild s) := by
  rw [onbuild]
  split
  · exact yields_malformed _ _
  · refine yields_after fun payload => ?_
    intro st hst index name h
    have hresolves := resolves_step st hst index name h
    cases hresolves.1

/-- The name that a FROM gives its stage has the form of one. -/
theorem named_fromImage :
    Yields cx (fun base : BaseImage => ∀ name ∈ base.stageName, isStageName name = true)
      (fromImage s) := by
  rw [fromImage]
  refine yields_after fun _ => ?_
  refine yields_after fun platform => ?_
  refine yields_after fun ws => ?_
  split
  · exact yields_malformed _ _
  · refine yields_after fun value => ?_
    split
    · exact yields_malformed _ _
    · split
      · exact yields_malformed _ _
      · split
        · exact yields_pure (by simp)
        · split
          · rename_i hname
            exact yields_pure (by simpa using hname)
          · exact yields_malformed _ _

theorem fits_instruction : Yields cx (Instruction.Fits cx.aliases) (instruction s) := by
  have hstep : Yields cx (Instruction.Fits cx.aliases) (.step <$> step s) := by
    refine yields_map (resolves_step.mono fun st hst => ⟨?_, ?_⟩)
    · intro base hbase
      cases hbase
    · intro index name h
      exact (hst index name h).2
  unfold instruction
  cases hk : s.keyword with
  | fromImage =>
    refine yields_map (named_fromImage.mono fun base hbase => ⟨?_, ?_⟩)
    · intro base' h
      cases h
      exact hbase
    · intro index name h
      cases h
  | onbuild =>
    refine yields_map (source?_onbuild.mono fun st hst => ⟨?_, ?_⟩)
    · intro base hbase
      cases hbase
    · intro index name h
      exact absurd h (hst index name)
  | maintainer =>
    refine yields_map ((yields_trivial _).mono fun name _ => ⟨?_, ?_⟩)
    · intro base hbase
      cases hbase
    · intro index name h
      cases h
  | _ => exact hstep

/-- **What is read from a logical line fits the stages before it.** -/
theorem fits_line (l : LogicalLine) : Yields cx (Instruction.Fits cx.aliases) (line l) :=
  yields_after fun _ => fits_instruction

end Grammar

end Containerfile
