import Containerfile.Proofs.Grammar.Yields
import Containerfile.Proofs.Instruction.OneLine
import Containerfile.Proofs.Line.Unnumbered
import Containerfile.Proofs.Statement

/-! # Instructions without their line numbers

Where a logical line stands decides nothing about the instruction on it: line numbers only end up in
failures and in the spans of heredocs.  `Grammar.Agree cx R x y` says that whatever the grammar `x`
reads, the grammar `y` reads something that stands to it as `R` says.  There is one rule for each
way of putting grammars together, and with them one lemma for each grammar, up to
`Grammar.agree_line`. -/
namespace Containerfile

/-! ## Instructions -/

/-- What COPY and ADD have in common, without line numbers. -/
def Transfer.unnumbered (files : Transfer) : Transfer :=
  { files with heredocs := files.heredocs.map Heredoc.unnumbered }

/-- A step without line numbers. -/
def Step.unnumbered : Step → Step
  | run r => run { r with heredocs := r.heredocs.map Heredoc.unnumbered }
  | copy files source parents => copy files.unnumbered source parents
  | add files checksum keepGitDir => add files.unnumbered checksum keepGitDir
  | s => s

/-- An instruction without line numbers. -/
def Instruction.unnumbered : Instruction → Instruction
  | step s => step s.unnumbered
  | onbuild s => onbuild s.unnumbered
  | i => i

namespace Step

theorem keyword_unnumbered (s : Step) : s.unnumbered.keyword = s.keyword := by cases s <;> rfl

theorem heredocs_unnumbered (s : Step) :
    s.unnumbered.heredocs = s.heredocs.map Heredoc.unnumbered := by cases s <;> rfl

theorem render_unnumbered (s : Step) : s.unnumbered.render = s.render := by
  have hheredocs : ∀ hs : List Heredoc,
      heredocsText (hs.map Heredoc.unnumbered) = heredocsText hs := by
    intro hs
    rw [heredocsText, List.flatMap_map]
    rfl
  have hparts : s.unnumbered.flagTexts ++ s.unnumbered.argTexts = s.flagTexts ++ s.argTexts := by
    cases s <;> rfl
  rw [render, render, keyword_unnumbered, heredocs_unnumbered, hheredocs, hparts]

end Step

namespace Instruction

variable {i j : Instruction}

theorem keyword_unnumbered (i : Instruction) : i.unnumbered.keyword = i.keyword := by
  cases i with
  | step s => exact s.keyword_unnumbered
  | _ => rfl

theorem heredocs_unnumbered (i : Instruction) :
    i.unnumbered.heredocs = i.heredocs.map Heredoc.unnumbered := by
  cases i with
  | step s => exact s.heredocs_unnumbered
  | onbuild s => exact s.heredocs_unnumbered
  | _ => rfl

theorem unnumbered_unnumbered (i : Instruction) : i.unnumbered.unnumbered = i.unnumbered := by
  have hheredocs : ∀ hs : List Heredoc,
      (hs.map Heredoc.unnumbered).map Heredoc.unnumbered = hs.map Heredoc.unnumbered := by
    intro hs
    rw [List.map_map]
    rfl
  have hstep : ∀ s : Step, s.unnumbered.unnumbered = s.unnumbered := by
    intro s
    cases s <;> simp only [Step.unnumbered, Transfer.unnumbered, hheredocs]
  cases i with
  | step s => exact congrArg step (hstep s)
  | onbuild s => exact congrArg onbuild (hstep s)
  | _ => rfl

/-- Line numbers are not printed. -/
theorem render_unnumbered (i : Instruction) : i.unnumbered.render = i.render := by
  cases i with
  | step s => exact s.render_unnumbered
  | onbuild s =>
    show Keyword.onbuild.text ++ ' ' :: s.unnumbered.render = _
    rw [s.render_unnumbered]
    rfl
  | _ => rfl

theorem keyword_of_unnumbered (h : i.unnumbered = j.unnumbered) : i.keyword = j.keyword := by
  rw [← i.keyword_unnumbered, h, j.keyword_unnumbered]

/-- Heredocs weigh the same without line numbers. -/
theorem totalWeight_of_unnumbered (h : i.unnumbered = j.unnumbered) :
    Heredoc.totalWeight i.heredocs = Heredoc.totalWeight j.heredocs := by
  have hweight : ∀ hs : List Heredoc,
      Heredoc.totalWeight (hs.map Heredoc.unnumbered) = Heredoc.totalWeight hs := by
    intro hs
    induction hs with
    | nil => rfl
    | cons h hs ih =>
      rw [List.map_cons, Heredoc.totalWeight, Heredoc.totalWeight, ih]
      rfl
  rw [← hweight i.heredocs, ← i.heredocs_unnumbered, h, j.heredocs_unnumbered, hweight]

end Instruction

/-! ## Grammars that agree -/

namespace Grammar

variable {α β γ δ : Type} {cx : Context} {R : α → β → Prop} {S : γ → δ → Prop}

/-- Whatever one grammar reads in a context, another one reads something related to it. -/
def Agree (cx : Context) (R : α → β → Prop) (x : Grammar α) (y : Grammar β) : Prop :=
  ∀ a, (x cx).result = .ok a → ∃ b, (y cx).result = .ok b ∧ R a b

theorem agree_refl (x : Grammar α) : Agree cx Eq x x := fun a ha => ⟨a, ha, rfl⟩

/-- Grammars that read the same read what stands to itself. -/
theorem agree_of_eq {T : α → α → Prop} (hT : ∀ a, T a a) {x y : Grammar α}
    (h : Agree cx Eq x y) : Agree cx T x y := by
  intro a ha
  obtain ⟨b, hb, rfl⟩ := h a ha
  exact ⟨a, hb, hT a⟩

theorem agree_pure {a : α} {b : β} (h : R a b) : Agree cx R (pure a) (pure b) := by
  intro c hc
  cases hc
  exact ⟨b, rfl, h⟩

theorem agree_fail {e : Failure} {y : Grammar β} : Agree cx R (fail e) y := by
  intro a ha
  cases ha

theorem agree_malformed {s : Statement} {fault : Fault} {y : Grammar β} :
    Agree cx R (malformed s fault) y := agree_fail

theorem agree_bind {x : Grammar α} {y : Grammar β} {f : α → Grammar γ} {g : β → Grammar δ}
    (hx : Agree cx R x y) (hf : ∀ a b, R a b → Agree cx S (f a) (g b)) :
    Agree cx S (x >>= f) (y >>= g) := by
  intro c hc
  obtain ⟨a, ha, hc⟩ := ok_of_bind hc
  obtain ⟨b, hb, hab⟩ := hx a ha
  obtain ⟨d, hd, hcd⟩ := hf a b hab c hc
  refine ⟨d, ?_, hcd⟩
  rw [bind_run, andThen, hb]
  exact hd

/-- Grammars that read the same go on alike. -/
theorem agree_bind_eq {x y : Grammar α} {f : α → Grammar γ} {g : α → Grammar δ}
    (hx : Agree cx Eq x y) (hf : ∀ a, Agree cx S (f a) (g a)) :
    Agree cx S (x >>= f) (y >>= g) := by
  refine agree_bind hx ?_
  rintro a b rfl
  exact hf a

theorem agree_map {x : Grammar α} {y : Grammar β} {f : α → γ} {g : β → δ}
    (hx : Agree cx (fun a b => S (f a) (g b)) x y) : Agree cx S (f <$> x) (g <$> y) := by
  rw [map_eq_pure_bind, map_eq_pure_bind]
  exact agree_bind hx fun _ _ hab => agree_pure hab

theorem agree_map_eq {x y : Grammar α} {f : α → γ} (hx : Agree cx Eq x y) :
    Agree cx Eq (f <$> x) (f <$> y) := by
  apply agree_map
  intro a ha
  obtain ⟨b, hb, rfl⟩ := hx a ha
  exact ⟨a, hb, rfl⟩

theorem agree_mapM' {f g : α → Grammar γ} {l : List α} (h : ∀ a ∈ l, Agree cx Eq (f a) (g a)) :
    Agree cx Eq (l.mapM' f) (l.mapM' g) := by
  induction l with
  | nil => exact agree_refl _
  | cons a l ih =>
    rw [List.mapM'_cons, List.mapM'_cons]
    refine agree_bind_eq (h a List.mem_cons_self) fun c => ?_
    exact agree_bind_eq (ih fun b hb => h b (List.mem_cons_of_mem _ hb)) fun cs => agree_refl _

end Grammar

/-! ## Statements -/

/-- A statement on other lines, with its heredocs there. -/
def Statement.moved (s : Statement) (lines : LineSpan) (hs : List Heredoc) : Statement :=
  { s with lines := lines, heredocs := hs }

namespace Grammar

variable {cx : Context} (s : Statement) (lines : LineSpan) {hs : List Heredoc}

/-! ### Flags -/

theorem agree_checkFlags (allowed repeatable : List String) :
    Agree cx Eq (checkFlags s allowed repeatable)
      (checkFlags (s.moved lines hs) allowed repeatable) := by
  unfold checkFlags
  have hflags : (s.moved lines hs).flags = s.flags := rfl
  rw [hflags]
  cases badFlag allowed repeatable [] s.flags with
  | none => exact agree_refl _
  | some fault => exact agree_malformed

theorem agree_flagValues (name : String) (v : Visibility) :
    Agree cx Eq (flagValues s name v) (flagValues (s.moved lines hs) name v) := by
  refine agree_bind_eq (agree_mapM' fun f _ => ?_) fun values => agree_refl _
  cases f.value with
  | none => exact agree_malformed
  | some raw => exact agree_refl _

theorem agree_flagValue (name : String) (v : Visibility) :
    Agree cx Eq (flagValue s name v) (flagValue (s.moved lines hs) name v) :=
  agree_bind_eq (agree_flagValues s lines name v) fun _ => agree_refl _

theorem agree_flagSwitch (name : String) :
    Agree cx Eq (flagSwitch s name) (flagSwitch (s.moved lines hs) name) := by
  unfold flagSwitch
  have hflag : (s.moved lines hs).flag? name.toList = s.flag? name.toList := rfl
  rw [hflag]
  cases s.flag? name.toList with
  | none => exact agree_refl _
  | some f =>
    dsimp only
    cases f.value with
    | none => exact agree_refl _
    | some value =>
      dsimp only
      split
      · exact agree_refl _
      · split
        · exact agree_refl _
        · exact agree_malformed

/-! ### Commands -/

theorem agree_command : Agree cx Eq (command s) (command (s.moved lines hs)) := by
  unfold command
  have hargs : (s.moved lines hs).args = s.args := rfl
  rw [hargs]
  cases s.args with
  | exec items => exact agree_refl _
  | text t =>
    dsimp only
    split
    · exact agree_malformed
    · exact agree_refl _

theorem agree_readOptional {α : Type} (read : Text → Option α) (fault : Text → Fault)
    (value : Option Text) :
    Agree cx Eq (readOptional s read fault value)
      (readOptional (s.moved lines hs) read fault value) := by
  cases value with
  | none => exact agree_refl _
  | some t =>
    unfold readOptional
    dsimp only
    cases read t with
    | none => exact agree_malformed
    | some a => exact agree_refl _

theorem agree_duration (name : String) :
    Agree cx Eq (duration s name) (duration (s.moved lines hs) name) := by
  refine agree_bind_eq (agree_flagValue s lines name _) fun value => ?_
  cases value with
  | none => exact agree_refl _
  | some t =>
    dsimp only
    cases Duration.read t with
    | ok d => exact agree_refl _
    | error fault => exact agree_malformed

theorem agree_retries : Agree cx Eq (retries s) (retries (s.moved lines hs)) := by
  refine agree_bind_eq (agree_flagValue s lines _ _) fun value => ?_
  cases value with
  | none => exact agree_refl _
  | some t =>
    dsimp only
    cases Numeral.read Numeral.greatest32 t with
    | ok n => exact agree_refl _
    | error fault => exact agree_malformed

theorem readExecForm_lines {k : Keyword} {t : Text} {lines : LineSpan} {items : List Text}
    (h : readExecForm k t lines = .ok items) (lines' : LineSpan) :
    readExecForm k t lines' = .ok items := by
  rw [readExecForm] at h ⊢
  cases hr : Json.readStrings t.trim with
  | error fault =>
    rw [hr] at h
    cases h
  | ok found =>
    rw [hr] at h
    exact h

theorem agree_healthCommand (t : Text) :
    Agree cx Eq (healthCommand s t) (healthCommand (s.moved lines hs) t) := by
  unfold healthCommand
  split
  · apply agree_map_eq
    intro items hitems
    exact ⟨items, readExecForm_lines hitems lines, rfl⟩
  · split
    · exact agree_malformed
    · exact agree_refl _

theorem agree_shell : Agree cx Eq (shell s) (shell (s.moved lines hs)) := by
  unfold shell
  have hargs : (s.moved lines hs).args = s.args := rfl
  rw [hargs]
  rcases s.args with t | ⟨_ | ⟨item, items⟩⟩
  · exact agree_malformed
  · exact agree_malformed
  · exact agree_refl _

theorem agree_healthcheck : Agree cx Eq (healthcheck s) (healthcheck (s.moved lines hs)) := by
  unfold healthcheck
  have htext : (s.moved lines hs).text = s.text := rfl
  have hflags : (s.moved lines hs).flags = s.flags := rfl
  refine agree_bind_eq (agree_checkFlags s lines _ _) fun _ => ?_
  rw [htext, hflags]
  dsimp only
  split
  · split
    · exact agree_malformed
    · exact agree_refl _
  · split
    · exact agree_malformed
    · refine agree_bind_eq (agree_healthCommand s lines _) fun _ => ?_
      refine agree_bind_eq (agree_duration s lines _) fun _ => ?_
      refine agree_bind_eq (agree_duration s lines _) fun _ => ?_
      refine agree_bind_eq (agree_duration s lines _) fun _ => ?_
      refine agree_bind_eq (agree_duration s lines _) fun _ => ?_
      refine agree_bind_eq (agree_retries s lines) fun _ => ?_
      exact agree_refl _

/-! ### Declarations -/

theorem agree_pair (w : Text) : Agree cx Eq (pair s w) (pair (s.moved lines hs) w) := by
  refine agree_bind_eq (agree_refl _) fun d => ?_
  cases Word.cut? d.escape '=' w with
  | none => exact agree_malformed
  | some p =>
    dsimp only
    split
    · exact agree_malformed
    · exact agree_refl _

theorem agree_restOfLine (first : Text) :
    Agree cx Eq (restOfLine s first) (restOfLine (s.moved lines hs) first) := by
  unfold restOfLine
  have htext : (s.moved lines hs).text = s.text := rfl
  rw [htext]
  dsimp only
  split
  · exact agree_malformed
  · exact agree_refl _

theorem agree_pairs : Agree cx Eq (pairs s) (pairs (s.moved lines hs)) := by
  refine agree_bind_eq (agree_refl _) fun ws => ?_
  cases ws with
  | nil => exact agree_malformed
  | cons first others =>
    refine agree_bind_eq (agree_refl _) fun d => ?_
    split
    · exact agree_bind_eq (agree_restOfLine s lines first) fun _ => agree_refl _
    · exact agree_mapM' fun w _ => agree_pair s lines w

theorem agree_declaration (w : Text) :
    Agree cx Eq (declaration s w) (declaration (s.moved lines hs) w) := by
  refine agree_bind_eq (agree_refl _) fun d => ?_
  cases Word.cut? d.escape '=' w with
  | none =>
    dsimp only
    split
    · exact agree_malformed
    · exact agree_refl _
  | some p =>
    refine agree_bind_eq (agree_refl _) fun value => ?_
    dsimp only
    split
    · exact agree_malformed
    · exact agree_refl _

theorem agree_arg : Agree cx Eq (arg s) (arg (s.moved lines hs)) := by
  refine agree_bind_eq (agree_refl _) fun ws => ?_
  cases ws with
  | nil => exact agree_malformed
  | cons w ws =>
    exact agree_bind_eq (agree_mapM' fun w _ => agree_declaration s lines w)
      fun _ => agree_refl _

theorem agree_expose : Agree cx Eq (expose s) (expose (s.moved lines hs)) := by
  refine agree_bind_eq (agree_refl _) fun ws => ?_
  dsimp only
  generalize List.mapM' readPort _ = ports
  rcases ports with fault | ⟨_ | ⟨port, ports⟩⟩
  · exact agree_malformed
  · exact agree_malformed
  · exact agree_refl _

theorem agree_user : Agree cx Eq (user s) (user (s.moved lines hs)) := by
  refine agree_bind_eq (agree_refl _) fun ws => ?_
  rcases ws with _ | ⟨spec, _ | ⟨w, ws⟩⟩
  · exact agree_malformed
  · dsimp only
    generalize Text.splitOnce ':' spec = parts
    rcases parts with _ | ⟨name, group⟩
    · dsimp only
      split
      · exact agree_malformed
      · exact agree_refl _
    · dsimp only
      split
      · exact agree_malformed
      · exact agree_refl _
  · exact agree_malformed

theorem agree_stopsignal : Agree cx Eq (stopsignal s) (stopsignal (s.moved lines hs)) := by
  refine agree_bind_eq (agree_refl _) fun ws => ?_
  rcases ws with _ | ⟨_ | ⟨c, signal⟩, _ | ⟨w, ws⟩⟩
  · exact agree_malformed
  · exact agree_malformed
  · exact agree_malformed
  · exact agree_refl _
  · exact agree_malformed

theorem agree_maintainer : Agree cx Eq (maintainer s) (maintainer (s.moved lines hs)) := by
  unfold maintainer
  have htext : (s.moved lines hs).text = s.text := rfl
  rw [htext]
  dsimp only
  split
  · exact agree_malformed
  · exact agree_refl _

/-! ### Files -/

theorem agree_fromImage : Agree cx Eq (fromImage s) (fromImage (s.moved lines hs)) := by
  refine agree_bind_eq (agree_checkFlags s lines _ _) fun _ => ?_
  refine agree_bind_eq (agree_flagValue s lines _ _) fun platform => ?_
  refine agree_bind_eq (agree_refl _) fun ws => ?_
  rcases baseWords ws with fault | ⟨imageWord, stageName⟩
  · exact agree_malformed
  · refine agree_bind_eq (agree_refl _) fun value => ?_
    split
    · exact agree_malformed
    · cases ImageName.read value with
      | error fault => exact agree_malformed
      | ok image =>
        cases stageName with
        | none => exact agree_refl _
        | some name =>
          dsimp only
          split
          · exact agree_refl _
          · exact agree_malformed

theorem agree_paths : Agree cx Eq (paths s) (paths (s.moved lines hs)) := agree_refl _

theorem agree_source (value : Text) :
    Agree cx Eq (source s value) (source (s.moved lines hs) value) := by
  refine agree_bind_eq (agree_refl _) fun d => ?_
  split
  · exact agree_refl _
  · cases d.aliases.resolveEarlier value with
    | some index => exact agree_refl _
    | none =>
      dsimp only
      split
      · cases ImageName.read value with
        | ok image => exact agree_refl _
        | error fault => exact agree_malformed
      · exact agree_fail

theorem agree_volume : Agree cx Eq (volume s) (volume (s.moved lines hs)) := by
  refine agree_bind_eq (agree_paths s lines) fun p => ?_
  obtain ⟨ps, execForm⟩ := p
  dsimp only
  split
  · exact agree_malformed
  · split
    · exact agree_malformed
    · exact agree_refl _

theorem agree_workdir : Agree cx Eq (workdir s) (workdir (s.moved lines hs)) := by
  refine agree_bind_eq (agree_refl _) fun path => ?_
  split
  · exact agree_malformed
  · exact agree_refl _

/-! ### Heredocs -/

/-- How two steps stand to each other that differ in line numbers alone. -/
def SameStep (a b : Step) : Prop := a.unnumbered = b.unnumbered

variable (hhs : hs.map Heredoc.unnumbered = s.heredocs.map Heredoc.unnumbered)

include hhs

theorem isEmpty_moved : hs.isEmpty = s.heredocs.isEmpty := by
  rw [← List.isEmpty_map (f := Heredoc.unnumbered), hhs, List.isEmpty_map]

theorem agree_run : Agree cx SameStep (run s) (run (s.moved lines hs)) := by
  refine agree_bind_eq (agree_checkFlags s lines _ _) fun _ => ?_
  refine agree_bind_eq (agree_flagValues s lines _ _) fun values => ?_
  refine agree_bind_eq (agree_mapM' fun t _ => ?_) fun mounts => ?_
  · cases readMount t with
    | ok m => exact agree_refl _
    | error fault => exact agree_malformed
  refine agree_bind_eq (agree_flagValue s lines _ _) fun network => ?_
  refine agree_bind_eq (agree_readOptional s lines _ _ network) fun network => ?_
  refine agree_bind_eq (agree_flagValue s lines _ _) fun security => ?_
  refine agree_bind_eq (agree_readOptional s lines _ _ security) fun security => ?_
  have hdone : ∀ c : Command, Agree cx SameStep
      (pure (Step.run ⟨c, mounts, network, security, s.heredocs⟩))
      (pure (Step.run ⟨c, mounts, network, security, hs⟩)) := by
    intro c
    apply agree_pure
    rw [SameStep, Step.unnumbered, Step.unnumbered, hhs]
  have hargs : (s.moved lines hs).args = s.args := rfl
  have hheredocs : (s.moved lines hs).heredocs = hs := rfl
  rw [hargs, hheredocs, isEmpty_moved s hhs]
  cases s.args with
  | exec items => exact hdone _
  | text t =>
    dsimp only
    split
    · exact agree_bind_eq agree_malformed hdone
    · exact agree_bind_eq (agree_refl _) hdone

theorem agree_transfer (chown chmod : Option Text) (link : Bool) (exclude : List Text) :
    Agree cx (fun a b : Transfer => a.unnumbered = b.unnumbered)
      (transfer s chown chmod link exclude)
      (transfer (s.moved lines hs) chown chmod link exclude) := by
  refine agree_bind_eq (agree_paths s lines) fun p => ?_
  obtain ⟨ps, execForm⟩ := p
  dsimp only
  cases ps.getLast? with
  | none => exact agree_malformed
  | some destination =>
    dsimp only
    split
    · exact agree_malformed
    · apply agree_pure
      rw [Transfer.unnumbered, Transfer.unnumbered]
      dsimp only [Statement.moved]
      rw [hhs]

theorem agree_copy : Agree cx SameStep (copy s) (copy (s.moved lines hs)) := by
  rw [copy_eq, copy_eq]
  refine agree_bind_eq (agree_checkFlags s lines _ _) fun _ => ?_
  refine agree_bind_eq (agree_flagValue s lines _ _) fun value => ?_
  refine agree_bind_eq ?_ fun source => ?_
  · cases value with
    | none => exact agree_refl _
    | some value => exact agree_map_eq (agree_source s lines value)
  · refine agree_bind_eq (agree_flagValue s lines _ _) fun chown => ?_
    refine agree_bind_eq (agree_flagValue s lines _ _) fun chmod => ?_
    refine agree_bind_eq (agree_flagSwitch s lines _) fun link => ?_
    refine agree_bind_eq (agree_flagSwitch s lines _) fun parents => ?_
    refine agree_bind_eq (agree_flagValues s lines _ _) fun exclude => ?_
    refine agree_bind (agree_transfer s lines hhs chown chmod link exclude) ?_
    intro files files' hfiles
    exact agree_pure (congrArg (Step.copy · source parents) hfiles)

theorem agree_add : Agree cx SameStep (add s) (add (s.moved lines hs)) := by
  refine agree_bind_eq (agree_checkFlags s lines _ _) fun _ => ?_
  refine agree_bind_eq (agree_flagValue s lines _ _) fun chown => ?_
  refine agree_bind_eq (agree_flagValue s lines _ _) fun chmod => ?_
  refine agree_bind_eq (agree_flagValue s lines _ _) fun checksum => ?_
  refine agree_bind_eq (agree_flagSwitch s lines _) fun keepGitDir => ?_
  refine agree_bind_eq (agree_flagSwitch s lines _) fun link => ?_
  refine agree_bind_eq (agree_flagValues s lines _ _) fun exclude => ?_
  refine agree_bind (agree_transfer s lines hhs chown chmod link exclude) ?_
  intro files files' hfiles
  exact agree_pure (congrArg (Step.add · checksum keepGitDir) hfiles)

/-! ### Instructions -/

theorem agree_step : Agree cx SameStep (step s) (step (s.moved lines hs)) := by
  have hsame : ∀ {x y : Grammar Step}, Agree cx Eq x y → Agree cx SameStep x y :=
    agree_of_eq (T := SameStep) fun _ => rfl
  have hkeyword : (s.moved lines hs).keyword = s.keyword := rfl
  unfold step
  rw [hkeyword]
  -- only RUN, COPY and ADD keep the heredocs, whose spans may differ
  cases s.keyword with
  | run => exact agree_run s lines hhs
  | cmd => exact hsame (agree_map_eq (agree_command s lines))
  | entrypoint => exact hsame (agree_map_eq (agree_command s lines))
  | copy => exact agree_copy s lines hhs
  | add => exact agree_add s lines hhs
  | env => exact hsame (agree_map_eq (agree_pairs s lines))
  | label => exact hsame (agree_map_eq (agree_pairs s lines))
  | arg => exact hsame (agree_arg s lines)
  | expose => exact hsame (agree_expose s lines)
  | volume => exact hsame (agree_volume s lines)
  | workdir => exact hsame (agree_workdir s lines)
  | user => exact hsame (agree_user s lines)
  | shell => exact hsame (agree_shell s lines)
  | stopsignal => exact hsame (agree_stopsignal s lines)
  | healthcheck => exact hsame (agree_healthcheck s lines)
  | fromImage => exact agree_fail
  | onbuild => exact agree_fail
  | maintainer => exact agree_fail

end Grammar

/-- A text is taken apart in the same way wherever it stands. -/
theorem Statement.read_moved {t : Text} {lines lines' : LineSpan} {hs hs' : List Heredoc}
    {s : Statement} (h : read t lines hs = .ok s) :
    read t lines' hs' = .ok (s.moved lines' hs') := by
  rw [read_eq] at h ⊢
  cases hk : Keyword.read? (Text.firstWord t).1 with
  | none =>
    rw [hk] at h
    cases h
  | some k =>
    rw [hk] at h
    simp only at h ⊢
    rw [readArguments] at h ⊢
    split at h
    · rename_i hexec
      rw [if_pos hexec]
      cases hx : readExecForm k (splitFlags k (Text.firstWord t).2).2 lines with
      | error f =>
        rw [hx] at h
        cases h
      | ok items =>
        rw [hx] at h
        cases h
        rw [Grammar.readExecForm_lines hx lines']
        rfl
    · rename_i hexec
      rw [if_neg hexec]
      cases h
      rfl

namespace Grammar

variable {cx : Context}

/-- How two instructions stand to each other that differ in line numbers alone. -/
def SameInstruction (i j : Instruction) : Prop := i.unnumbered = j.unnumbered

theorem agree_onbuild (s : Statement) (lines : LineSpan) {hs : List Heredoc}
    (hhs : hs.map Heredoc.unnumbered = s.heredocs.map Heredoc.unnumbered) :
    Agree cx SameStep (onbuild s) (onbuild (s.moved lines hs)) := by
  unfold onbuild
  have htext : (s.moved lines hs).text = s.text := rfl
  rw [htext]
  split
  · exact agree_malformed
  · intro st hst
    -- the trigger is a statement of its own, on the same lines and with the same heredocs
    obtain ⟨payload, hpayload, hst⟩ := ok_of_bind hst
    rw [ofExcept_run] at hpayload
    have hheredocs := (Statement.read_lines hpayload).2
    have hmoved : Statement.read s.text lines hs = .ok (payload.moved lines hs) :=
      Statement.read_moved hpayload
    obtain ⟨st', hst', hsame⟩ :=
      agree_step payload lines (by rw [hhs, hheredocs]) st hst
    have hpayload' : ofExcept (Statement.read s.text lines hs) cx =
        ⟨.ok (payload.moved lines hs), []⟩ := by
      rw [ofExcept_run, hmoved]
    refine ⟨st', ?_, hsame⟩
    show ((ofExcept (Statement.read s.text lines hs) >>= fun payload =>
      asTrigger (step payload)) cx).result = _
    rw [bind_of_ok hpayload']
    exact hst'

theorem agree_instruction (s : Statement) (lines : LineSpan) {hs : List Heredoc}
    (hhs : hs.map Heredoc.unnumbered = s.heredocs.map Heredoc.unnumbered) :
    Agree cx SameInstruction (instruction s) (instruction (s.moved lines hs)) := by
  have hkeyword : (s.moved lines hs).keyword = s.keyword := rfl
  have hsame : ∀ {x y : Grammar Instruction}, Agree cx Eq x y →
      Agree cx SameInstruction x y := agree_of_eq (T := SameInstruction) fun _ => rfl
  have hstep : Agree cx SameInstruction (.step <$> step s) (.step <$> step (s.moved lines hs)) := by
    apply agree_map
    intro a ha
    obtain ⟨b, hb, hab⟩ := agree_step s lines hhs a ha
    exact ⟨b, hb, congrArg Instruction.step hab⟩
  unfold instruction
  rw [hkeyword]
  cases s.keyword with
  | fromImage => exact hsame (agree_map_eq (agree_fromImage s lines))
  | maintainer => exact hsame (agree_map_eq (agree_maintainer s lines))
  | onbuild =>
    apply agree_map
    intro a ha
    obtain ⟨b, hb, hab⟩ := agree_onbuild s lines hhs a ha
    exact ⟨b, hb, congrArg Instruction.onbuild hab⟩
  | _ => exact hstep

/-- **A logical line is read in the same way wherever it stands.** -/
theorem agree_line {l l' : LogicalLine} (h : l.unnumbered = l'.unnumbered) :
    Agree cx SameInstruction (line l) (line l') := by
  rw [LogicalLine.unnumbered, LogicalLine.unnumbered, LogicalLine.mk.injEq] at h
  obtain ⟨-, -, htext, hheredocs⟩ := h
  intro i hi
  obtain ⟨s, hs, hi⟩ := ok_of_bind hi
  rw [ofExcept_run] at hs
  have hread : Statement.ofLine l' = .ok (s.moved l'.lines l'.heredocs) := by
    rw [Statement.ofLine, ← htext]
    exact Statement.read_moved hs
  rw [line_of_read hread]
  refine agree_instruction s l'.lines ?_ i hi
  rw [← hheredocs, (Statement.read_lines hs).2]

end Grammar

end Containerfile
