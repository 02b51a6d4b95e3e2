import Containerfile.Proofs.Grammar.Yields
import Containerfile.Proofs.Statement

/-! # Where failures are

Whatever is wrong with an instruction, the failure names the lines of its statement: also a fault of
an image name, which knows no lines of its own, and a failure of a trigger.
`Grammar.Blames lines x` says so of a grammar in every context.  There is one rule for each way of
putting grammars together, and with them one lemma for each grammar that can fail, up to
`Grammar.blames_line`. -/
namespace Containerfile

/-- What cannot be taken apart is on the given lines. -/
theorem Statement.lines_of_read_error {t : Text} {lines : LineSpan} {heredocs : List Heredoc}
    {f : Failure} (h : read t lines heredocs = .error f) : f.lines = some lines := by
  rw [read_eq] at h
  split at h
  · cases h
    rfl
  · rename_i k _
    rw [readArguments] at h
    split at h
    · rw [readExecForm] at h
      rcases hitems : Json.readStrings (splitFlags k (Text.firstWord t).2).2.trim with fault | items
      · rw [hitems] at h
        cases h
        rfl
      · rw [hitems] at h
        cases h
    · cases h

namespace Grammar

variable {α β : Type} {lines : LineSpan} {s : Statement}

/-- Every failure of a grammar is about some lines. -/
def Blames (lines : LineSpan) (x : Grammar α) : Prop :=
  ∀ cx f, (x cx).result = .error f → f.lines = some lines

/-! ## Ways of putting grammars together -/

theorem blames_pure (a : α) : Blames lines (pure a) := fun _ => fails_pure a

theorem blames_bind {x : Grammar α} {g : α → Grammar β} (hx : Blames lines x)
    (hg : ∀ a, Blames lines (g a)) : Blames lines (x >>= g) :=
  fun cx => fails_bind (hx cx) fun a => hg a cx

theorem blames_map {x : Grammar α} (g : α → β) (hx : Blames lines x) :
    Blames lines (g <$> x) := fun cx => fails_map g (hx cx)

theorem blames_mapM' {g : α → Grammar β} (hg : ∀ a, Blames lines (g a)) (l : List α) :
    Blames lines (l.mapM' g) := fun cx => fails_mapM' (fun a => hg a cx) l

theorem blames_fail {e : Failure} (h : e.lines = some lines) :
    Blames lines (fail e : Grammar α) := fun _ => fails_fail h

theorem blames_malformed (s : Statement) (fault : Fault) :
    Blames s.lines (malformed s fault : Grammar α) := blames_fail rfl

theorem blames_ofExcept {x : Except Failure α} (h : ∀ f, x = .error f → f.lines = some lines) :
    Blames lines (ofExcept x) := fun _ f hf => h f hf

theorem blames_context : Blames lines context := by
  intro cx f hf
  cases hf

/-! ## Words, which can always be read -/

theorem blames_expand (v : Visibility) (mode : ExpandMode) (t : Text) :
    Blames lines (expand v mode t) := by
  intro cx f hf
  rw [expand_run] at hf
  cases hf

theorem blames_word (v : Visibility) (raw : Text) : Blames lines (word v raw) := by
  intro cx f hf
  rw [word_run] at hf
  cases hf

theorem blames_wordValue (v : Visibility) (raw : Text) : Blames lines (wordValue v raw) :=
  blames_map _ (blames_word v raw)

theorem blames_rawWords (t : Text) : Blames lines (rawWords t) := by
  intro cx f hf
  cases hf

theorem blames_words (t : Text) : Blames lines (words t) :=
  blames_bind (blames_rawWords t) (blames_mapM' (blames_wordValue _))

/-! ## Flags -/

theorem blames_checkFlags (allowed repeatable : List String) :
    Blames s.lines (checkFlags s allowed repeatable) := by
  rw [checkFlags]
  split
  · exact blames_malformed s _
  · exact blames_pure _

theorem blames_flagValues (name : String) (v : Visibility) :
    Blames s.lines (flagValues s name v) := by
  refine blames_bind (blames_mapM' (fun f => ?_) _) fun _ => blames_pure _
  split
  · exact blames_malformed s _
  · exact blames_wordValue v _

theorem blames_flagValue (name : String) (v : Visibility) :
    Blames s.lines (flagValue s name v) :=
  blames_bind (blames_flagValues name v) fun _ => blames_pure _

theorem blames_flagSwitch (name : String) : Blames s.lines (flagSwitch s name) := by
  rw [flagSwitch]
  split
  · exact blames_pure _
  · split
    · exact blames_pure _
    · split
      · exact blames_pure _
      · split
        · exact blames_pure _
        · exact blames_malformed s _

/-- A value that may be missing and may be refused. -/
theorem blames_readOptional (read : Text → Option α) (fault : Text → Fault)
    (value : Option Text) : Blames s.lines (readOptional s read fault value) := by
  unfold readOptional
  split
  · exact blames_pure _
  · split
    · exact blames_pure _
    · exact blames_malformed s _

/-! ## Commands -/

theorem blames_shellCommand (t : Text) :
    Blames lines (Command.shell <$> expand .everywhere .shell t) :=
  blames_map _ (blames_expand _ _ t)

theorem blames_command : Blames s.lines (command s) := by
  rw [command]
  split
  · exact blames_pure _
  · split
    · exact blames_malformed s _
    · exact blames_shellCommand _

theorem blames_run : Blames s.lines (run s) := by
  rw [run]
  refine blames_bind (blames_checkFlags _ _) fun _ => ?_
  refine blames_bind (blames_flagValues _ _) fun values => ?_
  refine blames_bind (blames_mapM' (fun t => ?_) values) fun _ => ?_
  · split
    · exact blames_pure _
    · exact blames_malformed s _
  refine blames_bind (blames_flagValue _ _) fun _ => ?_
  refine blames_bind (blames_readOptional _ _ _) fun _ => ?_
  refine blames_bind (blames_flagValue _ _) fun _ => ?_
  refine blames_bind (blames_readOptional _ _ _) fun _ => ?_
  dsimp only
  split
  · exact blames_bind (blames_pure _) fun _ => blames_pure _
  · split
    · exact blames_bind (blames_malformed s _) fun _ => blames_pure _
    · exact blames_bind (blames_shellCommand _) fun _ => blames_pure _

theorem blames_shell : Blames s.lines (shell s) := by
  rw [shell]
  split
  · exact blames_malformed s _
  · exact blames_pure _
  · exact blames_malformed s _

theorem blames_duration (name : String) : Blames s.lines (duration s name) := by
  refine blames_bind (blames_flagValue _ _) fun value => ?_
  split
  · exact blames_pure _
  · split
    · exact blames_pure _
    · exact blames_malformed s _

theorem blames_retries : Blames s.lines (retries s) := by
  refine blames_bind (blames_flagValue _ _) fun value => ?_
  split
  · exact blames_pure _
  · split
    · exact blames_pure _
    · exact blames_malformed s _

theorem blames_healthCommand (t : Text) : Blames s.lines (healthCommand s t) := by
  rw [healthCommand]
  split
  · refine blames_map _ (blames_ofExcept fun f hf => ?_)
    rw [readExecForm] at hf
    rcases hitems : Json.readStrings t.trim with fault | items
    · rw [hitems] at hf
      cases hf
      rfl
    · rw [hitems] at hf
      cases hf
  · split
    · exact blames_malformed s _
    · exact blames_shellCommand t

theorem blames_healthcheck : Blames s.lines (healthcheck s) := by
  rw [healthcheck]
  refine blames_bind (blames_checkFlags _ _) fun _ => ?_
  dsimp only
  split
  · split
    · exact blames_malformed s _
    · exact blames_pure _
  · split
    · exact blames_malformed s _
    · refine blames_bind (blames_healthCommand _) fun _ => ?_
      refine blames_bind (blames_duration _) fun _ => ?_
      refine blames_bind (blames_duration _) fun _ => ?_
      refine blames_bind (blames_duration _) fun _ => ?_
      refine blames_bind (blames_duration _) fun _ => ?_
      exact blames_bind blames_retries fun _ => blames_pure _

/-! ## Declarations -/

theorem blames_pair (w : Text) : Blames s.lines (pair s w) := by
  rw [pair]
  refine blames_bind blames_context fun cx => ?_
  split
  · exact blames_malformed s _
  · dsimp only
    split
    · exact blames_malformed s _
    · exact blames_bind (blames_word _ _) fun _ => blames_pure _

theorem blames_restOfLine (first : Text) : Blames s.lines (restOfLine s first) := by
  rw [restOfLine]
  dsimp only
  split
  · exact blames_malformed s _
  · refine blames_bind blames_context fun cx => ?_
    exact blames_bind (blames_word _ _) fun _ => blames_pure _

theorem blames_pairs : Blames s.lines (pairs s) := by
  rw [pairs]
  refine blames_bind (blames_rawWords _) fun ws => ?_
  split
  · exact blames_malformed s _
  · refine blames_bind blames_context fun cx => ?_
    split
    · exact blames_bind (blames_restOfLine _) fun _ => blames_pure _
    · exact blames_mapM' blames_pair _

theorem blames_declaration (w : Text) : Blames s.lines (declaration s w) := by
  rw [declaration]
  refine blames_bind blames_context fun cx => ?_
  split
  · split
    · exact blames_malformed s _
    · exact blames_pure _
  · refine blames_bind (blames_word _ _) fun _ => ?_
    dsimp only
    split
    · exact blames_malformed s _
    · exact blames_pure _

theorem blames_arg : Blames s.lines (arg s) := by
  rw [arg]
  refine blames_bind (blames_rawWords _) fun ws => ?_
  split
  · exact blames_malformed s _
  · exact blames_bind (blames_mapM' blames_declaration _) fun _ => blames_pure _

theorem blames_expose : Blames s.lines (expose s) := by
  rw [expose]
  refine blames_bind (blames_words _) fun ws => ?_
  dsimp only
  split
  · exact blames_malformed s _
  · exact blames_malformed s _
  · exact blames_pure _

theorem blames_user : Blames s.lines (user s) := by
  rw [user]
  refine blames_bind (blames_words _) fun ws => ?_
  split
  · rename_i spec
    rcases Text.splitOnce ':' spec with _ | p
    · dsimp only
      split
      · exact blames_malformed s _
      · exact blames_pure _
    · dsimp only
      split
      · exact blames_malformed s _
      · exact blames_pure _
  · exact blames_malformed s _

theorem blames_stopsignal : Blames s.lines (stopsignal s) := by
  rw [stopsignal]
  refine blames_bind (blames_words _) fun ws => ?_
  split
  · exact blames_pure _
  · exact blames_malformed s _

theorem blames_maintainer : Blames s.lines (maintainer s) := by
  rw [maintainer]
  split
  · exact blames_malformed s _
  · exact blames_pure _

/-! ## Files -/

theorem blames_fromImage : Blames s.lines (fromImage s) := by
  rw [fromImage]
  refine blames_bind (blames_checkFlags _ _) fun _ => ?_
  refine blames_bind (blames_flagValue _ _) fun platform => ?_
  refine blames_bind (blames_rawWords _) fun ws => ?_
  split
  · exact blames_malformed s _
  · refine blames_bind (blames_wordValue _ _) fun value => ?_
    split
    · exact blames_malformed s _
    · split
      · exact blames_malformed s _
      · split
        · exact blames_pure _
        · split
          · exact blames_pure _
          · exact blames_malformed s _

theorem blames_paths : Blames s.lines (paths s) := by
  rw [paths]
  split
  · exact blames_bind (blames_mapM' (blames_expand _ _) _) fun _ => blames_pure _
  · exact blames_bind (blames_words _) fun _ => blames_pure _

theorem blames_source (value : Text) : Blames s.lines (source s value) := by
  rw [source]
  refine blames_bind blames_context fun cx => ?_
  split
  · exact blames_pure _
  · split
    · exact blames_pure _
    · split
      · split
        · exact blames_pure _
        · exact blames_malformed s _
      · exact blames_fail rfl

theorem blames_transfer (chown chmod : Option Text) (link : Bool) (exclude : List Text) :
    Blames s.lines (transfer s chown chmod link exclude) := by
  rw [transfer]
  refine blames_bind blames_paths fun p => ?_
  dsimp only
  split
  · exact blames_malformed s _
  · split
    · exact blames_malformed s _
    · exact blames_pure _

theorem blames_copy : Blames s.lines (copy s) := by
  rw [copy_eq]
  refine blames_bind (blames_checkFlags _ _) fun _ => ?_
  refine blames_bind (blames_flagValue _ _) fun value => ?_
  refine blames_bind ?_ fun source => ?_
  · rcases value with _ | value
    · exact blames_pure _
    · exact blames_map _ (blames_source value)
  · refine blames_bind (blames_flagValue _ _) fun _ => ?_
    refine blames_bind (blames_flagValue _ _) fun _ => ?_
    refine blames_bind (blames_flagSwitch _) fun _ => ?_
    refine blames_bind (blames_flagSwitch _) fun _ => ?_
    refine blames_bind (blames_flagValues _ _) fun _ => ?_
    exact blames_bind (blames_transfer _ _ _ _) fun _ => blames_pure _

theorem blames_add : Blames s.lines (add s) := by
  rw [add]
  refine blames_bind (blames_checkFlags _ _) fun _ => ?_
  refine blames_bind (blames_flagValue _ _) fun _ => ?_
  refine blames_bind (blames_flagValue _ _) fun _ => ?_
  refine blames_bind (blames_flagValue _ _) fun _ => ?_
  refine blames_bind (blames_flagSwitch _) fun _ => ?_
  refine blames_bind (blames_flagSwitch _) fun _ => ?_
  refine blames_bind (blames_flagValues _ _) fun _ => ?_
  exact blames_bind (blames_transfer _ _ _ _) fun _ => blames_pure _

theorem blames_volume : Blames s.lines (volume s) := by
  rw [volume]
  refine blames_bind blames_paths fun p => ?_
  dsimp only
  split
  · exact blames_malformed s _
  · split
    · exact blames_malformed s _
    · exact blames_pure _

theorem blames_workdir : Blames s.lines (workdir s) := by
  rw [workdir]
  refine blames_bind (blames_wordValue _ _) fun path => ?_
  split
  · exact blames_malformed s _
  · exact blames_pure _

/-! ## Instructions -/

theorem blames_step : Blames s.lines (step s) := by
  unfold step
  cases s.keyword with
  | run => exact blames_run
  | cmd => exact blames_map _ blames_command
  | entrypoint => exact blames_map _ blames_command
  | copy => exact blames_copy
  | add => exact blames_add
  | env => exact blames_map _ blames_pairs
  | label => exact blames_map _ blames_pairs
  | arg => exact blames_arg
  | expose => exact blames_expose
  | volume => exact blames_volume
  | workdir => exact blames_workdir
  | user => exact blames_user
  | shell => exact blames_shell
  | stopsignal => exact blames_stopsignal
  | healthcheck => exact blames_healthcheck
  | fromImage | onbuild | maintainer => exact blames_fail rfl

/-- A trigger is blamed on the lines of the whole instruction. -/
theorem blames_onbuild : Blames s.lines (onbuild s) := by
  rw [onbuild]
  split
  · exact blames_malformed s _
  · intro cx f hf
    rw [bind_run, andThen, ofExcept_run] at hf
    rcases hp : Statement.read s.text s.lines s.heredocs with e | payload
    · rw [hp] at hf
      cases hf
      exact Statement.lines_of_read_error hp
    · rw [hp] at hf
      have hlines := blames_step _ f hf
      rwa [(Statement.read_lines hp).1] at hlines

theorem blames_instruction : Blames s.lines (instruction s) := by
  unfold instruction
  cases s.keyword with
  | fromImage => exact blames_map _ blames_fromImage
  | onbuild => exact blames_map _ blames_onbuild
  | maintainer => exact blames_map _ blames_maintainer
  | _ => exact blames_map _ blames_step

/-- **Every failure of a logical line is about all of its lines.** -/
theorem blames_line (l : LogicalLine) : Blames l.lines (line l) := by
  intro cx f hf
  rw [line, bind_run, andThen, ofExcept_run] at hf
  rcases hs : Statement.ofLine l with e | s
  · rw [hs] at hf
    cases hf
    exact Statement.lines_of_read_error hs
  · rw [hs] at hf
    have hlines := blames_instruction cx f hf
    rwa [(Statement.read_lines hs).1] at hlines

end Grammar

end Containerfile
