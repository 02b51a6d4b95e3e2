import Containerfile.Proofs.Grammar.Contexts
import Containerfile.Proofs.Grammar.Stages

/-! # Triggers

The trigger of an ONBUILD runs in another build, so nothing of the build that it stands in goes into
it: no variables, no stages, not even whether the ONBUILD is a trigger itself.  What COPY takes
files from is left open.  A value of `--from` is therefore never looked up, and a COPY with it is
read as the same COPY without it (`Grammar.copy_without_from`), faults included.  Since only the
lookup could fail for another reason, all that can be wrong with the trigger is that it is malformed
(`Grammar.faults_copy`).

Main statement: `Grammar.onbuild_independent`. -/
namespace Containerfile

/-- A statement without the flags of a name. -/
def Statement.without (name : Text) (s : Statement) : Statement :=
  { s with flags := s.flags.filter (·.name != name) }

/-- A step with what it takes files from. -/
def Step.takingFrom (r : StageRef) : Step → Step
  | copy files _ parents => copy files (some r) parents
  | st => st

theorem Step.source?_takingFrom {st : Step} (h : st.keyword = .copy) (r : StageRef) :
    (st.takingFrom r).source? = some r := by
  cases st with
  | copy files source parents => rfl
  | _ => cases h

namespace Grammar

variable {α β : Type} {cx cx' : Context} {s : Statement} {name other : Text} {f : Flag}
  {flags : List Flag} {before before' : List Text} {allowed repeatable : List String}

/-! ## Flags -/

/-- **A flag that may stand once and stands once is never at fault**, and neither are
others because of it. -/
theorem badFlag_without (hallowed : allowed.any (·.toList == name) = true)
    (hbefore : ∀ n, n ≠ name → before.contains n = before'.contains n)
    (honce : before.contains name = true → ∀ g ∈ flags, g.name ≠ name)
    (hlength : (flags.filter (·.name == name)).length ≤ 1) :
    badFlag allowed repeatable before flags =
      badFlag allowed repeatable before' (flags.filter (·.name != name)) := by
  induction flags generalizing before before' with
  | nil => rfl
  | cons g flags ih =>
    have hmore : ∀ n, n ≠ name →
        (g.name :: before).contains n = (g.name :: before').contains n := by
      intro n hn
      rw [List.contains_cons, List.contains_cons, hbefore n hn]
    by_cases hg : g.name = name
    · have hnone : before.contains name = false := by
        rw [← Bool.not_eq_true]
        exact fun hin => honce hin g List.mem_cons_self hg
      rw [List.filter_cons_of_pos (by simp [hg]), List.length_cons] at hlength
      have hothers : ∀ k ∈ flags, k.name ≠ name := by
        have hempty : flags.filter (·.name == name) = [] :=
          List.eq_nil_of_length_eq_zero (by omega)
        simpa using hempty
      rw [badFlag, hg, hallowed, hnone, List.filter_cons_of_neg (by simp [hg])]
      refine ih ?_ (fun _ => hothers) (by omega)
      intro n hn
      rw [List.contains_cons, hbefore n hn, beq_eq_false_iff_ne.mpr hn, Bool.false_or]
    · rw [List.filter_cons_of_neg (by simp [hg])] at hlength
      rw [List.filter_cons_of_pos (by simp [hg]), badFlag, badFlag, hbefore g.name hg]
      split
      · rfl
      · split
        · rfl
        · refine ih hmore ?_ hlength
          intro hin k hk
          rw [List.contains_cons, beq_eq_false_iff_ne.mpr (Ne.symm hg), Bool.false_or] at hin
          exact honce hin k (List.mem_cons_of_mem _ hk)

/-- Flags that are checked stand once, but for those that may stand more often. -/
theorem filter_of_badFlag (h : badFlag allowed repeatable before flags = none)
    (hname : repeatable.any (·.toList == name) = false) :
    (before.contains name = true → ∀ g ∈ flags, g.name ≠ name) ∧
      (flags.filter (·.name == name)).length ≤ 1 := by
  induction flags generalizing before with
  | nil => exact ⟨fun _ _ hg => absurd hg List.not_mem_nil, Nat.zero_le 1⟩
  | cons g flags ih =>
    rw [badFlag] at h
    split at h
    · cases h
    · split at h
      · cases h
      · rename_i hrepeated
        obtain ⟨hlater, hlength⟩ := ih h
        rw [List.contains_cons] at hlater
        by_cases hg : g.name = name
        · rw [hg, hname, Bool.not_false, Bool.and_true] at hrepeated
          have hothers := hlater (by rw [hg, beq_self_eq_true, Bool.true_or])
          have hempty : flags.filter (·.name == name) = [] := by simpa using hothers
          refine ⟨fun hin => absurd hin hrepeated, ?_⟩
          rw [List.filter_cons_of_pos (by simp [hg]), hempty]
          exact Nat.le_refl 1
        · rw [List.filter_cons_of_neg (by simp [hg])]
          refine ⟨fun hin => ?_, hlength⟩
          rw [List.forall_mem_cons]
          exact ⟨hg, hlater (by rw [hin, Bool.or_true])⟩

theorem filter_without (h : other ≠ name) :
    (s.without name).flags.filter (·.name == other) = s.flags.filter (·.name == other) := by
  rw [Statement.without, List.filter_filter]
  refine List.filter_congr fun g _ => ?_
  by_cases hg : g.name = other
  · simp [hg, h]
  · simp [hg]

theorem flagValues_without {name other : String} (h : other.toList ≠ name.toList) (v : Visibility) :
    flagValues (s.without name.toList) other v = flagValues s other v := by
  rw [flagValues, filter_without h]
  rfl

theorem flagValue_without {name other : String} (h : other.toList ≠ name.toList) (v : Visibility) :
    flagValue (s.without name.toList) other v = flagValue s other v := by
  rw [flagValue, flagValues_without h]
  rfl

theorem flagSwitch_without {name other : String} (h : other.toList ≠ name.toList) :
    flagSwitch (s.without name.toList) other = flagSwitch s other := by
  have hflag : (s.without name.toList).flag? other.toList = s.flag? other.toList := by
    rw [Statement.flag?, Statement.flag?, ← List.head?_filter, ← List.head?_filter,
      filter_without h]
  rw [flagSwitch, hflag]
  rfl

/-- A flag that stands once has its value. -/
theorem flagValue_of_filter {name : String} {v : Visibility} {raw : Text}
    (hf : s.flags.filter (·.name == name.toList) = [f]) (hraw : f.value = some raw)
    (hcx : cx.scope = none) (hne : Word.value cx.escape raw ≠ []) :
    flagValue s name v cx = ⟨.ok (some (Word.value cx.escape raw)), []⟩ := by
  simp [flagValue, flagValues, hf, hraw, bind_run, andThen, filling, hcx, Expansion.literal,
    Except.map, hne]

/-- A flag that does not stand leaves nothing. -/
theorem flagValue_of_none {name : String} (v : Visibility) :
    flagValue (s.without name.toList) name v = pure none := by
  have hempty : (s.without name.toList).flags.filter (·.name == name.toList) = [] := by
    rw [Statement.without, List.filter_filter, List.filter_eq_nil_iff]
    intro g _
    simp
  rw [flagValue, flagValues, hempty]
  rfl

/-! ## COPY -/

/-- What COPY takes files from says nothing about the rest of it. -/
theorem copyFrom_some (s : Statement) (r : StageRef) :
    copyFrom s (some r) = Step.takingFrom r <$> copyFrom s none := by
  simp only [copyFrom, map_bind, map_pure]
  rfl

theorem copyFrom_without (s : Statement) (r : Option StageRef) :
    copyFrom (s.without "from".toList) r = copyFrom s r := by
  rw [copyFrom, copyFrom, flagValue_without (by decide), flagValue_without (by decide),
    flagSwitch_without (by decide), flagSwitch_without (by decide), flagValues_without (by decide)]
  rfl

/-- The flags of COPY. -/
def copyFlags : List String := ["from", "chown", "chmod", "link", "parents", "exclude"]

/-- **As a trigger, a COPY with a source is the COPY without it**, its source left open. -/
theorem copy_without_from {raw : Text} (hcx : cx.scope = none) (hdeferred : cx.deferred = true)
    (hf : s.flags.filter (·.name == "from".toList) = [f]) (hraw : f.value = some raw)
    (hne : Word.value cx.escape raw ≠ []) :
    copy s cx =
      (Step.takingFrom (.deferred (Word.value cx.escape raw)) <$> copy (s.without "from".toList))
        cx := by
  have hflags : badFlag copyFlags ["exclude"] [] s.flags =
      badFlag copyFlags ["exclude"] [] (s.without "from".toList).flags :=
    badFlag_without (by decide) (fun _ _ => rfl) (fun hin => by cases hin)
      (by rw [hf]; exact Nat.le_refl 1)
  have hsource : optionalSource s (some (Word.value cx.escape raw)) cx =
      ⟨.ok (some (.deferred (Word.value cx.escape raw))), []⟩ := by
    rw [optionalSource, map_run, source, bind_of_ok (context_run cx), if_pos hdeferred]
    rfl
  rw [copy_eq, copy_eq, map_bind, checkFlags, checkFlags, ← copyFlags, hflags]
  cases badFlag copyFlags ["exclude"] [] (s.without "from".toList).flags with
  | some fault => rfl
  | none =>
    rw [pure_bind, pure_bind, bind_of_ok (flagValue_of_filter hf hraw hcx hne), bind_of_ok hsource,
      flagValue_of_none, pure_bind, optionalSource, pure_bind, copyFrom_some, copyFrom_without]
    rfl

/-- What a COPY that is a trigger takes files from. -/
theorem source?_of_copy {raw : Text} (hcx : cx.scope = none) (hdeferred : cx.deferred = true)
    (hf : f ∈ s.flags) (hname : f.name = "from".toList) (hraw : f.value = some raw)
    (hne : Word.value cx.escape raw ≠ []) :
    Yields cx (fun st => st.source? = some (.deferred (Word.value cx.escape raw))) (copy s) := by
  intro st hst
  -- the flags were checked, so the flag stands once
  have hchecked : badFlag copyFlags ["exclude"] [] s.flags = none := by
    have hcopy := hst
    rw [copy_eq, checkFlags, ← copyFlags] at hcopy
    cases hbad : badFlag copyFlags ["exclude"] [] s.flags with
    | none => rfl
    | some fault =>
      rw [hbad] at hcopy
      cases hcopy
  have hmem : f ∈ s.flags.filter (·.name == "from".toList) :=
    List.mem_filter.mpr ⟨hf, beq_iff_eq.mpr hname⟩
  have honce : s.flags.filter (·.name == "from".toList) = [f] := by
    have hlength : (s.flags.filter (·.name == "from".toList)).length ≤ 1 :=
      (filter_of_badFlag hchecked (by decide)).2
    obtain ⟨g, hg⟩ := List.length_eq_one_iff.mp
      (Nat.le_antisymm hlength (List.length_pos_of_mem hmem))
    rw [hg, List.mem_singleton] at hmem
    rw [hg, hmem]
  rw [copy_without_from hcx hdeferred honce hraw hne] at hst
  obtain ⟨st', hst', rfl⟩ := ok_of_map hst
  exact Step.source?_takingFrom (takes_copy st' hst').1 _

/-! ## Faults -/

/-- In a context nothing is wrong with a statement but that it is malformed. -/
def Faults (cx : Context) (s : Statement) (x : Grammar α) : Prop :=
  ∀ e, (x cx).result = .error e → ∃ fault, e = .malformed s.keyword fault s.lines

theorem faults_of_ok {x : Grammar α} {a : α} (h : (x cx).result = .ok a) : Faults cx s x :=
  fails_of_ok h

theorem faults_malformed (s : Statement) (fault : Fault) :
    Faults cx s (malformed s fault : Grammar α) := fails_fail ⟨fault, rfl⟩

theorem faults_bind {x : Grammar α} {g : α → Grammar β} (hx : Faults cx s x)
    (hg : ∀ a, Faults cx s (g a)) : Faults cx s (x >>= g) := fails_bind hx hg

theorem faults_mapM' {g : α → Grammar β} (hg : ∀ a, Faults cx s (g a)) (l : List α) :
    Faults cx s (l.mapM' g) := fails_mapM' hg l

theorem faults_checkFlags : Faults cx s (checkFlags s allowed repeatable) := by
  rw [checkFlags]
  cases badFlag allowed repeatable [] s.flags with
  | some fault => exact faults_malformed s fault
  | none => exact faults_of_ok rfl

theorem faults_flagValues (name : String) (v : Visibility) : Faults cx s (flagValues s name v) := by
  refine faults_bind (faults_mapM' (fun g => ?_) _) fun values => faults_of_ok rfl
  split
  · exact faults_malformed s _
  · exact faults_of_ok (congrArg Outcome.result (wordValue_run v _ cx))

theorem faults_flagValue (name : String) (v : Visibility) : Faults cx s (flagValue s name v) :=
  faults_bind (faults_flagValues name v) fun _ => faults_of_ok rfl

theorem faults_flagSwitch (name : String) : Faults cx s (flagSwitch s name) := by
  rw [flagSwitch]
  split
  · exact faults_of_ok rfl
  · split
    · exact faults_of_ok rfl
    · split
      · exact faults_of_ok rfl
      · split
        · exact faults_of_ok rfl
        · exact faults_malformed s _

theorem faults_transfer (chown chmod : Option Text) (link : Bool) (exclude : List Text) :
    Faults cx s (transfer s chown chmod link exclude) := by
  refine faults_bind ?_ fun p => ?_
  · rw [paths]
    split
    · refine faults_bind (faults_mapM' (fun item => ?_) _) fun _ => faults_of_ok rfl
      exact faults_of_ok (congrArg Outcome.result (expand_run _ _ item cx))
    · rename_i t _
      exact faults_bind (faults_of_ok (congrArg Outcome.result (words_run t cx))) fun _ =>
        faults_of_ok rfl
  · obtain ⟨ps, execForm⟩ := p
    dsimp only
    split
    · exact faults_malformed s _
    · split
      · exact faults_malformed s _
      · exact faults_of_ok rfl

/-- **A COPY that is a trigger can only be malformed**: its source is not looked up. -/
theorem faults_copy (hdeferred : cx.deferred = true) : Faults cx s (copy s) := by
  rw [copy_eq]
  refine faults_bind faults_checkFlags fun _ => ?_
  refine faults_bind (faults_flagValue _ _) fun value => ?_
  refine faults_bind ?_ fun r => ?_
  · cases value with
    | none => exact faults_of_ok rfl
    | some value =>
      refine faults_of_ok (a := some (.deferred value)) ?_
      rw [optionalSource, map_run, source, bind_of_ok (context_run cx), if_pos hdeferred]
      rfl
  refine faults_bind (faults_flagValue _ _) fun chown => ?_
  refine faults_bind (faults_flagValue _ _) fun chmod => ?_
  refine faults_bind (faults_flagSwitch _) fun link => ?_
  refine faults_bind (faults_flagSwitch _) fun parents => ?_
  refine faults_bind (faults_flagValues _ _) fun exclude => ?_
  exact faults_bind (faults_transfer chown chmod link exclude) fun _ => faults_of_ok rfl

/-! ## ONBUILD -/

theorem instruction_onbuild (hs : s.keyword = .onbuild) :
    instruction s = .onbuild <$> onbuild s := by
  unfold instruction
  rw [hs]

theorem step_copy (hs : s.keyword = .copy) : step s = copy s := by
  unfold step
  rw [hs]

/-- A trigger that can be taken apart is read as a step in a context of its own. -/
theorem onbuild_of_read {payload : Statement}
    (h : Statement.read s.text s.lines s.heredocs = .ok payload) :
    onbuild s cx = asTrigger (step payload) cx := by
  have hne : s.text.trim.isEmpty = false := by
    rw [← Bool.not_eq_true, List.isEmpty_iff]
    intro hempty
    have hkeyword := Statement.keyword_of_read h
    rw [Text.firstWord, hempty] at hkeyword
    cases hkeyword
  rw [onbuild, if_neg (by rw [hne]; exact Bool.false_ne_true), h]
  exact bind_of_ok (ofExcept_run _ cx)

/-- **A trigger is read without regard to the build that ONBUILD stands in.**  In contexts with
the same escape character, whatever variables and stages they have and whether or not they belong
to a trigger themselves:

1. ONBUILD comes to the same, failures included, and refers to no name.
2. If the trigger is a COPY that can be taken apart, nothing is wrong with it but that it is
   malformed, so it names no unknown stage.
3. If such a COPY has a value for what it takes files from, and the value without its quotes is not
   empty, it takes files from what that value will name when the trigger runs.
4. Where the value stands once, the trigger is read exactly if it is without it, and the same
   otherwise. -/
theorem onbuild_independent (hs : s.keyword = .onbuild) (he : cx'.escape = cx.escape) :
    instruction s cx' = instruction s cx ∧ (instruction s cx).references = [] ∧
      ∀ payload, Statement.read s.text s.lines s.heredocs = .ok payload → payload.keyword = .copy →
        (∀ e, (instruction s cx).result = .error e → ∃ fault, e = .malformed .copy fault s.lines) ∧
        ∀ f ∈ payload.flags, f.name = "from".toList → ∀ raw ∈ f.value,
          Word.value cx.escape raw ≠ [] →
            (∀ i, (instruction s cx).result = .ok i →
              i.source? = some (.deferred (Word.value cx.escape raw))) ∧
            (payload.flags.filter (·.name == "from".toList) = [f] →
              (instruction s cx).result =
                (asTrigger (step (payload.without "from".toList)) cx).result.map fun st =>
                  .onbuild (st.takingFrom (.deferred (Word.value cx.escape raw)))) := by
  obtain ⟨hsame, hnamed⟩ := same_onbuild (s := s) he
  rw [instruction_onbuild hs, map_run, map_run, hsame]
  refine ⟨rfl, List.eq_nil_iff_forall_not_mem.mpr hnamed, fun payload hread hcopy => ?_⟩
  obtain ⟨hlines, -⟩ := Statement.read_lines hread
  let trigger : Context := { cx with scope := none, deferred := true }
  have hwithout : (payload.without "from".toList).keyword = .copy := hcopy
  have honbuild : onbuild s cx = copy payload trigger := by
    rw [onbuild_of_read hread, asTrigger, step_copy hcopy]
  rw [honbuild]
  refine ⟨fun e hresult => ?_,
    fun f hf hname raw hraw hne => ⟨fun i hresult => ?_, fun hfilter => ?_⟩⟩
  · cases hr : (copy payload trigger).result with
    | ok st =>
      rw [hr] at hresult
      cases hresult
    | error e' =>
      rw [hr] at hresult
      cases hresult
      rw [← hcopy, ← hlines]
      exact faults_copy rfl e hr
  · cases hr : (copy payload trigger).result with
    | error e =>
      rw [hr] at hresult
      cases hresult
    | ok st =>
      rw [hr] at hresult
      cases hresult
      have hyields : Yields trigger
          (fun st => st.source? = some (.deferred (Word.value cx.escape raw))) (copy payload) :=
        source?_of_copy rfl rfl hf hname hraw hne
      exact hyields st hr
  · have honce : copy payload trigger = (Step.takingFrom (.deferred (Word.value cx.escape raw)) <$>
        copy (payload.without "from".toList)) trigger := copy_without_from rfl rfl hfilter hraw hne
    rw [honce, map_run, asTrigger, step_copy hwithout]
    cases (copy (payload.without "from".toList) trigger).result with
    | error e => rfl
    | ok st => rfl

/-- A trigger that takes files from a stage by its name in quotes. -/
def copyTrigger : Statement :=
  { keyword := .onbuild
    rawArgs := "COPY --from='build' a /b".toList
    flags := []
    args := .text "COPY --from='build' a /b".toList
    lines := .single 3
    heredocs := [] }

/-- The stage is there in one context and not in the other, and the name stays open in both. -/
theorem onbuild_independent_copyTrigger :
    let cx : Context := ⟨'\\', none, [some "build".toList, none], false⟩
    let cx' : Context := ⟨'\\', some { escape := '\x60' }, [], true⟩
    let i : Instruction := .onbuild
      (.copy ⟨["a".toList], "/b".toList, none, none, false, [], [], false⟩
        (some (.deferred "build".toList)) false)
    copyTrigger.keyword = .onbuild ∧ cx'.escape = cx.escape ∧
      instruction copyTrigger cx' = instruction copyTrigger cx ∧
      (instruction copyTrigger cx).references = [] ∧ (instruction copyTrigger cx).result = .ok i ∧
      i.source? = some (.deferred "build".toList) := by
  intro cx cx' i
  have hread : Statement.read copyTrigger.text copyTrigger.lines copyTrigger.heredocs =
      .ok ⟨.copy, "--from='build' a /b".toList, [⟨"from".toList, some "'build'".toList⟩],
        .text "a /b".toList, .single 3, []⟩ := by decide +kernel
  have hresult : (instruction copyTrigger cx).result = .ok i := by decide +kernel
  have hescape : cx'.escape = cx.escape := rfl
  obtain ⟨hsame, hnamed, hcopy⟩ :=
    onbuild_independent (show copyTrigger.keyword = .onbuild from rfl) hescape
  obtain ⟨hsource, -⟩ := (hcopy _ hread rfl).2 _ List.mem_cons_self rfl _ rfl (by decide)
  exact ⟨rfl, rfl, hsame, hnamed, hresult, hsource i hresult⟩

end Grammar

end Containerfile
