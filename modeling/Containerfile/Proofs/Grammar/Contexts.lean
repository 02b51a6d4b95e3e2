import Containerfile.Proofs.Expansion.Literal
import Containerfile.Proofs.Statement
import Containerfile.Proofs.Text.Lines
import Containerfile.Proofs.Word.OneLine
import Containerfile.Proofs.Word.Split

/-! # What grammars see of their context

A grammar looks at its context in three ways.  It takes the escape character from it, it fills in
texts of its statement, and COPY looks up what it takes files from.  So a statement is read in the
same way in two contexts that give the same answers to these questions: `Grammar.Alike` for the
first two, as far as the texts of the statement go, and `Grammar.SameSource` for the third.

`Grammar.Same named cx cx' x` says that a grammar comes to the same in two contexts, failures and
references included, and that the names it refers to without a declaration are `named`.  There is
one rule for each way of putting grammars together, and with them one lemma for each grammar, up to
`Grammar.same_instruction`.  ONBUILD asks for the escape character and for nothing else, since its
trigger is read in a context of its own (`Grammar.same_onbuild`). -/
namespace Containerfile

/-- A statement whose texts are all of a kind, the values of its flags included. -/
structure Statement.Within (legible : Text → Prop) (s : Statement) : Prop where
  flags : ∀ f ∈ s.flags, ∀ t ∈ f.value, legible t
  text : legible s.text
  items : ∀ items, s.args = .exec items → ∀ item ∈ items, legible item

theorem Statement.Within.args {legible : Text → Prop} {s : Statement} {t : Text}
    (hs : s.Within legible) (ht : s.args = .text t) : legible t := by
  have htext := hs.text
  rwa [Statement.text, ht] at htext

namespace Grammar

variable {α β : Type} {named : Text → Prop} {cx cx' : Context}

/-! ## Grammars that come to the same -/

/-- A grammar comes to the same in two contexts and leaves only undeclared names of a kind. -/
def Same (named : Text → Prop) (cx cx' : Context) (x : Grammar α) : Prop :=
  x cx' = x cx ∧ ∀ name ∈ (x cx).references, named name

theorem Same.mono {named' : Text → Prop} {x : Grammar α} (h : Same named cx cx' x)
    (hn : ∀ name, named name → named' name) : Same named' cx cx' x :=
  ⟨h.1, fun name hname => hn name (h.2 name hname)⟩

theorem same_pure (a : α) : Same named cx cx' (pure a) :=
  ⟨rfl, fun _ h => absurd h List.not_mem_nil⟩

theorem same_fail (e : Failure) : Same named cx cx' (fail e : Grammar α) :=
  ⟨rfl, fun _ h => absurd h List.not_mem_nil⟩

theorem same_malformed (s : Statement) (fault : Fault) :
    Same named cx cx' (malformed s fault : Grammar α) := same_fail _

theorem same_ofExcept (x : Except Failure α) : Same named cx cx' (ofExcept x) :=
  ⟨rfl, fun _ h => absurd h List.not_mem_nil⟩

theorem same_bind {x : Grammar α} {f : α → Grammar β} (hx : Same named cx cx' x)
    (hf : ∀ a, (x cx).result = .ok a → Same named cx cx' (f a)) :
    Same named cx cx' (x >>= f) := by
  obtain ⟨hsame, hnamed⟩ := hx
  rw [Same, bind_run, bind_run, andThen, andThen, hsame]
  cases hr : (x cx).result with
  | error e => exact ⟨rfl, hnamed⟩
  | ok a =>
    obtain ⟨hsame', hnamed'⟩ := hf a hr
    dsimp only
    rw [hsame']
    exact ⟨rfl, List.forall_mem_append.mpr ⟨hnamed, hnamed'⟩⟩

/-- What was read first does not matter where what follows always comes to the same. -/
theorem same_then {x : Grammar α} {f : α → Grammar β} (hx : Same named cx cx' x)
    (hf : ∀ a, Same named cx cx' (f a)) : Same named cx cx' (x >>= f) :=
  same_bind hx fun a _ => hf a

theorem same_map {x : Grammar α} (f : α → β) (hx : Same named cx cx' x) :
    Same named cx cx' (f <$> x) := by
  rw [map_eq_pure_bind]
  exact same_then hx fun a => same_pure (f a)

theorem same_mapM' {f : α → Grammar β} {l : List α} (h : ∀ a ∈ l, Same named cx cx' (f a)) :
    Same named cx cx' (l.mapM' f) := by
  induction l with
  | nil => exact same_pure []
  | cons a l ih =>
    rw [List.forall_mem_cons] at h
    rw [List.mapM'_cons]
    refine same_then h.1 fun b => ?_
    exact same_then (ih h.2) fun bs => same_pure (b :: bs)

/-- A grammar may ask for its context where it sees the same in both. -/
theorem same_context {f : Context → Grammar β} (hf : f cx' = f cx)
    (h : Same named cx cx' (f cx)) : Same named cx cx' (context >>= f) := by
  rw [Same, bind_of_ok (context_run cx), bind_of_ok (context_run cx'), hf, h.1]
  exact ⟨rfl, h.2⟩

/-! ## Words and flags -/

/-- Two contexts with the same escape character that fill in texts of a kind to the same, with
undeclared names of a kind.  What is filled in may also be cut into parts first. -/
structure Alike (seen : Visibility) (legible named : Text → Prop) (cx cx' : Context) : Prop where
  escape : cx'.escape = cx.escape
  part : ∀ {t u : Text}, u ⊆ t → legible t → legible u
  fills : ∀ {t : Text}, legible t → ∀ mode, filling cx' seen mode t = filling cx seen mode t
  names : ∀ {t : Text}, legible t → ∀ mode, ∀ name ∈ (filling cx seen mode t).undeclared, named name

section Words

variable {seen : Visibility} {legible : Text → Prop} {s : Statement} {t : Text}

theorem same_expand (h : Alike seen legible named cx cx') (ht : legible t) (mode : ExpandMode) :
    Same named cx cx' (expand seen mode t) := by
  rw [Same, expand_run, expand_run, h.fills ht]
  exact ⟨rfl, h.names ht mode⟩

theorem same_word (h : Alike seen legible named cx cx') (ht : legible t) :
    Same named cx cx' (word seen t) := by
  rw [Same, word_run, word_run, h.fills ht, h.escape]
  exact ⟨rfl, h.names ht .word⟩

theorem same_wordValue (h : Alike seen legible named cx cx') (ht : legible t) :
    Same named cx cx' (wordValue seen t) := same_map _ (same_word h ht)

theorem same_rawWords (h : Alike seen legible named cx cx') (t : Text) :
    Same named cx cx' (rawWords t) := by
  rw [Same, rawWords_run, rawWords_run, h.escape]
  exact ⟨rfl, fun _ hname => absurd hname List.not_mem_nil⟩

/-- The words of a text are parts of it. -/
theorem subset_of_rawWords {ws : List Text} (h : (rawWords t cx).result = .ok ws) :
    ∀ w ∈ ws, w ⊆ t := by
  rw [rawWords_run] at h
  cases h
  exact fun w hw => Word.subset_of_mem_split hw

theorem same_words (h : Alike .everywhere legible named cx cx') (ht : legible t) :
    Same named cx cx' (words t) := by
  refine same_bind (same_rawWords h t) fun ws hws => ?_
  exact same_mapM' fun w hw => same_wordValue h (h.part (subset_of_rawWords hws w hw) ht)

theorem same_checkFlags (allowed repeatable : List String) :
    Same named cx cx' (checkFlags s allowed repeatable) := by
  rw [checkFlags]
  cases badFlag allowed repeatable [] s.flags with
  | none => exact same_pure _
  | some fault => exact same_malformed s fault

theorem same_flagValues (h : Alike seen legible named cx cx') (hs : s.Within legible)
    (name : String) : Same named cx cx' (flagValues s name seen) := by
  refine same_then (same_mapM' fun f hf => ?_) fun values => same_pure _
  have hflag := hs.flags f (List.mem_of_mem_filter hf)
  split
  · exact same_malformed s _
  · rename_i raw hraw
    exact same_wordValue h (hflag raw hraw)

theorem same_flagValue (h : Alike seen legible named cx cx') (hs : s.Within legible)
    (name : String) : Same named cx cx' (flagValue s name seen) :=
  same_then (same_flagValues h hs name) fun _ => same_pure _

theorem same_flagSwitch (name : String) : Same named cx cx' (flagSwitch s name) := by
  rw [flagSwitch]
  split
  · exact same_pure _
  · split
    · exact same_pure _
    · split
      · exact same_pure _
      · split
        · exact same_pure _
        · exact same_malformed s _

end Words

section Statements

variable {legible : Text → Prop} {s : Statement} {t : Text}
  (h : Alike .everywhere legible named cx cx') (hs : s.Within legible)

include h hs

/-! ## Commands -/

omit hs in
theorem same_shellCommand (ht : legible t) :
    Same named cx cx' (Command.shell <$> expand .everywhere .shell t) :=
  same_map _ (same_expand h ht .shell)

theorem same_command : Same named cx cx' (command s) := by
  rw [command]
  cases ha : s.args with
  | exec items => exact same_pure _
  | text t =>
    dsimp only
    split
    · exact same_malformed s _
    · exact same_shellCommand h (h.part (Text.trim_isInfix t).subset (hs.args ha))

omit h hs in
theorem same_readOptional {γ : Type} (read : Text → Option γ) (fault : Text → Fault)
    (value : Option Text) : Same named cx cx' (readOptional s read fault value) := by
  cases value with
  | none => exact same_pure _
  | some t =>
    rw [readOptional]
    split
    · exact same_pure _
    · exact same_malformed s _

theorem same_run : Same named cx cx' (run s) := by
  rw [run]
  refine same_then (same_checkFlags _ _) fun _ => ?_
  refine same_then (same_flagValues h hs _) fun raws => ?_
  refine same_then (same_mapM' fun raw _ => ?_) fun mounts => ?_
  · split
    · exact same_pure _
    · exact same_malformed s _
  refine same_then (same_flagValue h hs _) fun network => ?_
  refine same_then (same_readOptional _ _ network) fun network => ?_
  refine same_then (same_flagValue h hs _) fun security => ?_
  refine same_then (same_readOptional _ _ security) fun security => ?_
  cases ha : s.args with
  | exec items => exact same_pure _
  | text t =>
    dsimp only
    split
    · exact same_then (same_malformed s _) fun c => same_pure _
    · refine same_then (same_shellCommand h ?_) fun c => same_pure _
      exact h.part (Text.trim_isInfix t).subset (hs.args ha)

omit h hs in
theorem same_shell : Same named cx cx' (shell s) := by
  rw [shell]
  split
  · exact same_malformed s _
  · exact same_pure _
  · exact same_malformed s _

theorem same_duration (name : String) : Same named cx cx' (duration s name) := by
  refine same_then (same_flagValue h hs name) fun value => ?_
  split
  · exact same_pure _
  · split
    · exact same_pure _
    · exact same_malformed s _

theorem same_retries : Same named cx cx' (retries s) := by
  refine same_then (same_flagValue h hs _) fun value => ?_
  split
  · exact same_pure _
  · split
    · exact same_pure _
    · exact same_malformed s _

omit hs in
theorem same_healthCommand (ht : legible t) : Same named cx cx' (healthCommand s t) := by
  rw [healthCommand]
  split
  · exact same_map _ (same_ofExcept _)
  · split
    · exact same_malformed s _
    · exact same_shellCommand h ht

theorem same_healthcheck : Same named cx cx' (healthcheck s) := by
  rw [healthcheck]
  refine same_then (same_checkFlags _ _) fun _ => ?_
  dsimp only
  split
  · split
    · exact same_malformed s _
    · exact same_pure _
  · split
    · exact same_malformed s _
    · refine same_then (same_healthCommand h ?_) fun c => ?_
      · exact h.part (Text.firstWord_subset s.text).2 hs.text
      refine same_then (same_duration h hs _) fun interval => ?_
      refine same_then (same_duration h hs _) fun timeout => ?_
      refine same_then (same_duration h hs _) fun startPeriod => ?_
      refine same_then (same_duration h hs _) fun startInterval => ?_
      exact same_then (same_retries h hs) fun retries => same_pure _

/-! ## Declarations -/

omit hs in
theorem same_pair {w : Text} (hw : legible w) : Same named cx cx' (pair s w) := by
  refine same_context (by simp only [h.escape]) ?_
  cases hc : Word.cut? cx.escape '=' w with
  | none => exact same_malformed s _
  | some p =>
    dsimp only
    split
    · exact same_malformed s _
    · exact same_then (same_word h (h.part (Word.cut?_subset hc).2 hw)) fun _ => same_pure _

theorem same_restOfLine (first : Text) : Same named cx cx' (restOfLine s first) := by
  rw [restOfLine]
  dsimp only
  split
  · exact same_malformed s _
  · refine same_context (by simp only [h.escape]) ?_
    refine same_then (same_word h ?_) fun _ => same_pure _
    exact h.part (Text.firstWord_subset s.text).2 hs.text

theorem same_pairs : Same named cx cx' (pairs s) := by
  refine same_bind (same_rawWords h s.text) fun ws hws => ?_
  have hlegible : ∀ w ∈ ws, legible w := fun w hw =>
    h.part (subset_of_rawWords hws w hw) hs.text
  cases ws with
  | nil => exact same_malformed s _
  | cons first others =>
    refine same_context (by simp only [h.escape]) ?_
    split
    · exact same_then (same_restOfLine h hs first) fun _ => same_pure _
    · exact same_mapM' fun w hw => same_pair h (hlegible w hw)

omit hs in
theorem same_declaration {w : Text} (hw : legible w) : Same named cx cx' (declaration s w) := by
  refine same_context (by simp only [h.escape]) ?_
  cases hc : Word.cut? cx.escape '=' w with
  | none =>
    dsimp only
    split
    · exact same_malformed s _
    · exact same_pure _
  | some p =>
    refine same_then (same_word h (h.part (Word.cut?_subset hc).2 hw)) fun value => ?_
    dsimp only
    split
    · exact same_malformed s _
    · exact same_pure _

theorem same_arg : Same named cx cx' (arg s) := by
  refine same_bind (same_rawWords h s.text) fun ws hws => ?_
  have hlegible : ∀ w ∈ ws, legible w := fun w hw =>
    h.part (subset_of_rawWords hws w hw) hs.text
  cases ws with
  | nil => exact same_malformed s _
  | cons w ws =>
    exact same_then (same_mapM' fun v hv => same_declaration h (hlegible v hv)) fun _ => same_pure _

theorem same_expose : Same named cx cx' (expose s) := by
  refine same_then (same_words h hs.text) fun ws => ?_
  dsimp only
  split
  · exact same_malformed s _
  · exact same_malformed s _
  · exact same_pure _

theorem same_user : Same named cx cx' (user s) := by
  refine same_then (same_words h hs.text) fun ws => ?_
  split
  · rename_i spec
    generalize Text.splitOnce ':' spec = parts
    rcases parts with _ | ⟨name, group⟩
    · dsimp only
      split
      · exact same_malformed s _
      · exact same_pure _
    · dsimp only
      split
      · exact same_malformed s _
      · exact same_pure _
  · exact same_malformed s _

theorem same_stopsignal : Same named cx cx' (stopsignal s) := by
  refine same_then (same_words h hs.text) fun ws => ?_
  split
  · exact same_pure _
  · exact same_malformed s _

omit h hs in
theorem same_maintainer : Same named cx cx' (maintainer s) := by
  rw [maintainer]
  split
  · exact same_malformed s _
  · exact same_pure _

/-! ## Files -/

theorem same_paths : Same named cx cx' (paths s) := by
  rw [paths]
  cases ha : s.args with
  | exec items =>
    have hlegible := hs.items items ha
    exact same_then (same_mapM' fun item hitem => same_expand h (hlegible item hitem) _)
      fun _ => same_pure _
  | text t => exact same_then (same_words h (hs.args ha)) fun _ => same_pure _

theorem same_transfer (chown chmod : Option Text) (link : Bool) (exclude : List Text) :
    Same named cx cx' (transfer s chown chmod link exclude) := by
  refine same_then (same_paths h hs) fun p => ?_
  obtain ⟨ps, execForm⟩ := p
  dsimp only
  split
  · exact same_malformed s _
  · split
    · exact same_malformed s _
    · exact same_pure _

/-- Two contexts that find the same source of files for a COPY. -/
def SameSource (cx cx' : Context) : Prop :=
  ∀ (s : Statement) (value : Text), Same (fun _ => False) cx cx' (source s value)

theorem same_copyFrom (r : Option StageRef) : Same named cx cx' (copyFrom s r) := by
  refine same_then (same_flagValue h hs _) fun chown => ?_
  refine same_then (same_flagValue h hs _) fun chmod => ?_
  refine same_then (same_flagSwitch _) fun link => ?_
  refine same_then (same_flagSwitch _) fun parents => ?_
  refine same_then (same_flagValues h hs _) fun exclude => ?_
  exact same_then (same_transfer h hs chown chmod link exclude) fun _ => same_pure _

theorem same_copy (hsource : SameSource cx cx') : Same named cx cx' (copy s) := by
  rw [copy_eq]
  refine same_then (same_checkFlags _ _) fun _ => ?_
  refine same_then (same_flagValue h hs _) fun value => ?_
  refine same_then ?_ fun r => same_copyFrom h hs r
  cases value with
  | none => exact same_pure _
  | some value => exact same_map _ ((hsource s value).mono fun _ hname => hname.elim)

theorem same_add : Same named cx cx' (add s) := by
  rw [add]
  refine same_then (same_checkFlags _ _) fun _ => ?_
  refine same_then (same_flagValue h hs _) fun chown => ?_
  refine same_then (same_flagValue h hs _) fun chmod => ?_
  refine same_then (same_flagValue h hs _) fun checksum => ?_
  refine same_then (same_flagSwitch _) fun keepGitDir => ?_
  refine same_then (same_flagSwitch _) fun link => ?_
  refine same_then (same_flagValues h hs _) fun exclude => ?_
  exact same_then (same_transfer h hs chown chmod link exclude) fun _ => same_pure _

theorem same_volume : Same named cx cx' (volume s) := by
  refine same_then (same_paths h hs) fun p => ?_
  obtain ⟨ps, execForm⟩ := p
  dsimp only
  split
  · exact same_malformed s _
  · split
    · exact same_malformed s _
    · exact same_pure _

theorem same_workdir : Same named cx cx' (workdir s) := by
  refine same_then (same_wordValue h ?_) fun path => ?_
  · exact h.part (Text.trim_isInfix s.text).subset hs.text
  split
  · exact same_malformed s _
  · exact same_pure _

/-! ## Steps -/

theorem same_step (hsource : SameSource cx cx') : Same named cx cx' (step s) := by
  unfold step
  cases s.keyword with
  | run => exact same_run h hs
  | cmd => exact same_map _ (same_command h hs)
  | entrypoint => exact same_map _ (same_command h hs)
  | copy => exact same_copy h hs hsource
  | add => exact same_add h hs
  | env => exact same_map _ (same_pairs h hs)
  | label => exact same_map _ (same_pairs h hs)
  | arg => exact same_arg h hs
  | expose => exact same_expose h hs
  | volume => exact same_volume h hs
  | workdir => exact same_workdir h hs
  | user => exact same_user h hs
  | shell => exact same_shell
  | stopsignal => exact same_stopsignal h hs
  | healthcheck => exact same_healthcheck h hs
  | fromImage | onbuild | maintainer => exact same_fail _

end Statements

/-! ## Instructions -/

variable {legible : Text → Prop} {s : Statement}

/-- FROM sees the variables declared before the first stage. -/
theorem same_fromImage (h : Alike .globalOnly legible named cx cx') (hs : s.Within legible) :
    Same named cx cx' (fromImage s) := by
  rw [fromImage]
  refine same_then (same_checkFlags _ _) fun _ => ?_
  refine same_then (same_flagValue h hs _) fun platform => ?_
  refine same_bind (same_rawWords h s.text) fun ws hws => ?_
  cases hb : baseWords ws with
  | error fault => exact same_malformed s _
  | ok p =>
    obtain ⟨imageWord, stageName⟩ := p
    have hword : imageWord ⊆ s.text := subset_of_rawWords hws imageWord (baseWords_mem hb).1
    dsimp only
    refine same_then (same_wordValue h (h.part hword hs.text)) fun value => ?_
    split
    · exact same_malformed s _
    · split
      · exact same_malformed s _
      · split
        · exact same_pure _
        · split
          · exact same_pure _
          · exact same_malformed s _

/-- What COPY takes files from depends on the stages and on whether it is a trigger. -/
theorem same_source (ha : cx'.aliases = cx.aliases) (hd : cx'.deferred = cx.deferred) :
    SameSource cx cx' := by
  intro s value
  refine same_context (by simp only [ha, hd]) ?_
  split
  · exact same_pure _
  · split
    · exact same_pure _
    · split
      · split
        · exact same_pure _
        · exact same_malformed s _
      · exact same_fail _

/-- In a trigger it is left open. -/
theorem same_source_of_deferred (hcx : cx.deferred = true) (hcx' : cx'.deferred = true) :
    SameSource cx cx' := by
  intro s value
  rw [source, Same, bind_of_ok (context_run cx), bind_of_ok (context_run cx')]
  dsimp only
  rw [if_pos hcx, if_pos hcx']
  exact ⟨rfl, fun _ hname => absurd hname List.not_mem_nil⟩

/-- Without variables every text stays as it is. -/
theorem alike_of_scopeless (he : cx'.escape = cx.escape) (hcx : cx.scope = none)
    (hcx' : cx'.scope = none) (seen : Visibility) :
    Alike seen (fun _ => True) (fun _ => False) cx cx' := by
  have hfilling : ∀ {d : Context}, d.scope = none → ∀ mode t,
      filling d seen mode t = .literal t := by
    intro d hd mode t
    rw [filling, hd]
  refine ⟨he, fun _ _ => trivial, ?_, ?_⟩
  · intro t _ mode
    rw [hfilling hcx, hfilling hcx']
  · intro t _ mode name hname
    rw [hfilling hcx] at hname
    exact List.not_mem_nil hname

/-- **A trigger is read in the same way wherever ONBUILD stands**, and refers to nothing. -/
theorem same_onbuild (he : cx'.escape = cx.escape) :
    Same (fun _ => False) cx cx' (onbuild s) := by
  rw [onbuild]
  split
  · exact same_malformed s _
  · refine same_then (same_ofExcept _) fun payload => ?_
    have halike : Alike .everywhere (fun _ => True) (fun _ => False)
        { cx with scope := none, deferred := true }
        { cx' with scope := none, deferred := true } := by
      refine alike_of_scopeless ?_ rfl rfl .everywhere
      exact he
    have hwithin : payload.Within fun _ => True :=
      ⟨fun _ _ _ _ => trivial, trivial, fun _ _ _ _ => trivial⟩
    exact same_step halike hwithin (same_source_of_deferred rfl rfl)

/-- **A statement is read in the same way in contexts that are alike to it.** -/
theorem same_instruction (h : Alike .everywhere legible named cx cx')
    (hglobal : Alike .globalOnly legible named cx cx') (hs : s.Within legible)
    (hsource : SameSource cx cx') : Same named cx cx' (instruction s) := by
  unfold instruction
  cases s.keyword with
  | fromImage => exact same_map _ (same_fromImage hglobal hs)
  | onbuild =>
    exact same_map _ ((same_onbuild h.escape).mono fun _ hname => hname.elim)
  | maintainer => exact same_map _ same_maintainer
  | _ => exact same_map _ (same_step h hs hsource)

end Grammar

/-! ## Statements without references -/

/-- A statement without a dollar sign in its arguments and in the values of its flags. -/
structure Statement.Dollarless (s : Statement) : Prop where
  flags : ∀ f ∈ s.flags, ∀ t ∈ f.value, '$' ∉ t
  text : ∀ t, s.args = .text t → '$' ∉ t
  items : ∀ items, s.args = .exec items → ∀ item ∈ items, '$' ∉ item

theorem Statement.Dollarless.within {s : Statement} (h : s.Dollarless) :
    s.Within fun t => '$' ∉ t := by
  refine ⟨h.flags, ?_, h.items⟩
  rw [Statement.text]
  cases ha : s.args with
  | text t => exact h.text t ha
  | exec items =>
    intro hmem
    rcases Text.mem_join hmem with hmem | ⟨item, hitem, hmem⟩
    · exact absurd hmem (by decide)
    · exact h.items items ha item hitem hmem

namespace Grammar

/-- A scope changes nothing about text without dollar signs. -/
theorem alike_of_dollarless (cx : Context) (scope : Scope) (seen : Visibility) :
    Alike seen (fun t => '$' ∉ t) (fun _ => False) { cx with scope := none }
      { cx with scope := some scope } := by
  refine ⟨rfl, fun hu ht hmem => ht (hu hmem), ?_, ?_⟩
  · intro t ht mode
    cases seen with
    | everywhere => exact Expansion.ofText_of_dollarless ht
    | globalOnly => exact Expansion.ofText_of_dollarless ht
  · intro t _ mode name hname
    exact List.not_mem_nil hname

/-- **Without references, variables do not matter.**  A statement without dollar signs is read with
the variables of any scope as it is read without any, failures included, and refers to no name. -/
theorem instruction_of_dollarless {s : Statement} (hs : s.Dollarless) (cx : Context)
    (scope : Scope) :
    instruction s { cx with scope := some scope } = instruction s { cx with scope := none } ∧
      (instruction s { cx with scope := some scope }).references = [] := by
  have hsame := same_instruction (alike_of_dollarless cx scope .everywhere)
    (alike_of_dollarless cx scope .globalOnly) hs.within (same_source rfl rfl)
  refine ⟨hsame.1, ?_⟩
  rw [hsame.1]
  exact List.eq_nil_iff_forall_not_mem.mpr hsame.2

/-- A COPY with quotes and escape characters and without references. -/
def quotedCopy : Statement :=
  { keyword := .copy
    rawArgs := "--from=build 'a b' c\\ d /e".toList
    flags := [⟨"from".toList, some "build".toList⟩]
    args := .text "'a b' c\\ d /e".toList
    lines := .single 3
    heredocs := [] }

/-- Neither the variables of a scope nor its other escape character matter to it. -/
theorem instruction_of_dollarless_copy :
    quotedCopy.Dollarless ∧
      instruction quotedCopy ⟨'\\', some { escape := '\x60' }, [some "build".toList, none], false⟩ =
        instruction quotedCopy ⟨'\\', none, [some "build".toList, none], false⟩ ∧
      (instruction quotedCopy
        ⟨'\\', some { escape := '\x60' }, [some "build".toList, none], false⟩).references = [] := by
  have hs : quotedCopy.Dollarless := by
    refine ⟨by decide, ?_, ?_⟩
    · intro t ht
      cases ht
      decide
    · intro items hitems
      cases hitems
  exact ⟨hs, instruction_of_dollarless hs ⟨'\\', none, [some "build".toList, none], false⟩
    { escape := '\x60' }⟩

end Grammar

end Containerfile
