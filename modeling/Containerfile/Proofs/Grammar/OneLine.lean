import Containerfile.Proofs.Grammar.Yields
import Containerfile.Proofs.ImageName
import Containerfile.Proofs.Instruction.OneLine
import Containerfile.Proofs.Statement
import Containerfile.Proofs.Word.OneLine

/-! # Instructions on one line

What is read from a line without line feeds, with variables whose values have none, has none itself
outside the strings of JSON arrays (`Grammar.oneLine_line`), and an instruction keeps the heredocs
of its line or has none. -/
namespace Containerfile

open Text

/-! ## Statements -/

/-- A statement whose flags and arguments stay on one line, and whose arguments are a JSON array
only where its keyword allows that. -/
structure Statement.OneLine (s : Statement) : Prop where
  flags : ∀ f ∈ s.flags, ∀ v ∈ f.value, Text.OneLine v
  args : ∀ t, s.args = .text t → Text.OneLine t
  exec : ∀ items, s.args = .exec items → s.keyword.acceptsExecForm = true

namespace Statement

theorem OneLine.text {s : Statement} (h : s.OneLine) (hk : s.keyword.acceptsExecForm = false) :
    Text.OneLine s.text := by
  rw [Statement.text]
  cases ha : s.args with
  | text t => exact h.args t ha
  | exec items =>
    rw [h.exec items ha] at hk
    cases hk

theorem oneLine_flagOf {body : Text} (h : Text.OneLine body) :
    ∀ v ∈ (flagOf body).value, Text.OneLine v := by
  intro v hv
  rw [flagOf] at hv
  cases hs : Text.splitOnce '=' body with
  | none =>
    rw [hs] at hv
    cases hv
  | some p =>
    rw [hs] at hv
    cases hv
    exact (h.splitOnce hs).2

theorem oneLine_readFlags {t : Text} (h : Text.OneLine t) :
    (∀ f ∈ (readFlags t).1, ∀ v ∈ f.value, Text.OneLine v) ∧ Text.OneLine (readFlags t).2 := by
  fun_induction readFlags t with
  | case1 t c body hword flags rest hrest ih =>
    have ih' := ih h.firstWord.2
    have hbody := h.firstWord.1
    rw [hword, oneLine_cons, oneLine_cons] at hbody
    rw [hrest] at ih'
    refine ⟨?_, ih'.2⟩
    rw [List.forall_mem_cons]
    exact ⟨oneLine_flagOf hbody.2.2, ih'.1⟩
  | case2 t _ =>
    refine ⟨?_, h⟩
    intro f hf
    cases hf

theorem oneLine_splitFlags {k : Keyword} {t : Text} (h : Text.OneLine t) :
    (∀ f ∈ (splitFlags k t).1, ∀ v ∈ f.value, Text.OneLine v) ∧
      Text.OneLine (splitFlags k t).2 := by
  rw [splitFlags]
  split
  · exact oneLine_readFlags h
  · refine ⟨?_, h⟩
    intro f hf
    cases hf

/-- A text on one line is taken apart into such texts. -/
theorem oneLine_of_read {t : Text} {lines : LineSpan} {heredocs : List Heredoc} {s : Statement}
    (h : Text.OneLine t) (hr : read t lines heredocs = .ok s) : s.OneLine := by
  rw [read_eq] at hr
  split at hr
  · cases hr
  · rename_i k _
    obtain ⟨hflags, hpositional⟩ := oneLine_splitFlags (k := k) h.firstWord.2
    rw [readArguments] at hr
    split at hr
    · rename_i hexec
      rw [Bool.and_eq_true] at hexec
      cases hx : readExecForm k (splitFlags k (Text.firstWord t).2).2 lines with
      | error f =>
        rw [hx] at hr
        cases hr
      | ok items =>
        rw [hx] at hr
        cases hr
        refine ⟨hflags, ?_, fun _ _ => hexec.1⟩
        intro u hu
        cases hu
    · cases hr
      refine ⟨hflags, ?_, ?_⟩
      · intro u hu
        cases hu
        exact hpositional
      · intro items hitems
        cases hitems

end Statement

/-! ## Variables -/

/-- Variables whose values stay on one line. -/
structure Scope.OneLine (scope : Scope) : Prop where
  global : ∀ b ∈ scope.global, b.OneLine
  stages : ∀ l ∈ scope.stages.toList, ∀ b ∈ l, b.OneLine

/-- A context whose variables have values on one line. -/
def Context.OneLine (cx : Context) : Prop := ∀ scope ∈ cx.scope, scope.OneLine

theorem Layer.mem_of_get? {l : Layer} {name : Text} {b : Binding} (h : b ∈ l.get? name) :
    b ∈ l := List.mem_of_find?_eq_some h

namespace Scope

variable {scope : Scope}

theorem OneLine.current (h : scope.OneLine) :
    ∀ b ∈ scope.stages.current?.getD [], b.OneLine := by
  intro b hb
  cases hc : scope.stages.current? with
  | none =>
    rw [hc] at hb
    cases hb
  | some l =>
    rw [hc] at hb
    rw [Draft.current?_eq_getLast?] at hc
    exact h.stages l (List.mem_of_getLast? hc) b hb

theorem OneLine.lookup (h : scope.OneLine) (name : Text) :
    ∀ b ∈ scope.lookup name, b.OneLine := by
  intro b hb
  rw [Scope.lookup, Option.mem_def, Option.or_eq_some_iff] at hb
  rcases hb with hb | ⟨-, hb⟩
  · exact h.current b (Layer.mem_of_get? hb)
  · exact h.global b (Layer.mem_of_get? hb)

end Scope

namespace Grammar

variable {cx : Context} {s : Statement}

theorem oneLine_filling (hcx : cx.OneLine) (v : Visibility) (mode : ExpandMode) {t : Text}
    (h : Text.OneLine t) : Text.OneLine (filling cx v mode t).value := by
  rw [filling]
  cases hs : cx.scope with
  | none => exact h
  | some scope =>
    have hscope := hcx scope hs
    cases v with
    | everywhere => exact Expansion.oneLine_ofText hscope.lookup h
    | globalOnly =>
      exact Expansion.oneLine_ofText
        (fun name b hb => hscope.global b (Layer.mem_of_get? hb)) h

/-! ## Words and flags -/

theorem yields_expand (hcx : cx.OneLine) {v : Visibility} {mode : ExpandMode} {t : Text}
    (h : Text.OneLine t) : Yields cx Text.OneLine (expand v mode t) := by
  intro u hu
  rw [expand_run] at hu
  cases hu
  exact oneLine_filling hcx v mode h

theorem yields_word (hcx : cx.OneLine) {v : Visibility} {raw : Text} (h : Text.OneLine raw) :
    Yields cx (fun p => Text.OneLine p.1) (word v raw) := by
  intro p hp
  rw [word_run] at hp
  cases hp
  exact Word.oneLine_value (oneLine_filling hcx v .word h)

theorem yields_wordValue (hcx : cx.OneLine) {v : Visibility} {raw : Text}
    (h : Text.OneLine raw) : Yields cx Text.OneLine (wordValue v raw) :=
  yields_map (yields_word hcx h)

theorem yields_rawWords {t : Text} (h : Text.OneLine t) :
    Yields cx (fun ws => ∀ w ∈ ws, Text.OneLine w) (rawWords t) := by
  intro ws hws
  rw [rawWords_run] at hws
  cases hws
  exact Word.oneLine_split h

theorem yields_words (hcx : cx.OneLine) {t : Text} (h : Text.OneLine t) :
    Yields cx (fun ws => ∀ w ∈ ws, Text.OneLine w) (words t) := by
  refine yields_bind (yields_rawWords h) fun ws hws => ?_
  exact yields_mapM' fun w hw => yields_wordValue hcx (hws w hw)

theorem yields_flagValues (hcx : cx.OneLine) (hs : s.OneLine) (name : String) (v : Visibility) :
    Yields cx (fun ws => ∀ w ∈ ws, Text.OneLine w) (flagValues s name v) := by
  refine yields_bind (yields_mapM' (Q := Text.OneLine) fun f hf => ?_) fun values hvalues => ?_
  · have hflag := hs.flags f (List.mem_of_mem_filter hf)
    split
    · exact yields_malformed _ _
    · rename_i raw hraw
      exact yields_wordValue hcx (hflag raw hraw)
  · exact yields_pure fun w hw => hvalues w (List.mem_of_mem_filter hw)

theorem yields_flagValue (hcx : cx.OneLine) (hs : s.OneLine) (name : String) (v : Visibility) :
    Yields cx (fun value => ∀ w ∈ value, Text.OneLine w) (flagValue s name v) := by
  refine yields_bind (yields_flagValues hcx hs name v) fun values hvalues => ?_
  exact yields_pure fun w hw => hvalues w (List.mem_of_getLast? hw)

/-! ## Commands -/

theorem yields_shell (hcx : cx.OneLine) {t : Text} (h : Text.OneLine t) :
    Yields cx Command.OneLine
      (.shell <$> expand .everywhere .shell t) := by
  apply yields_map
  exact (yields_expand hcx h).mono fun u hu => List.forall_mem_singleton.mpr hu

theorem yields_command (hcx : cx.OneLine) (hs : s.OneLine) :
    Yields cx Command.OneLine (command s) := by
  rw [command]
  cases ha : s.args with
  | exec items => exact yields_pure fun t ht => absurd ht List.not_mem_nil
  | text t =>
    dsimp only
    split
    · exact yields_malformed _ _
    · exact yields_shell hcx (hs.args t ha).trim

theorem raw_of_readMount {t : Text} {m : Mount} (h : readMount t = .ok m) : m.raw = t := by
  have hfold : ∀ (fields : List (Text × Option Text)) (m : Mount),
      (fields.foldl addField m).raw = m.raw := by
    intro fields
    induction fields with
    | nil => intro m; rfl
    | cons f fields ih =>
      intro m
      rw [List.foldl_cons, ih, addField]
      split
      · rfl
      · split
        · rfl
        · rfl
  unfold readMount at h
  dsimp only at h
  split at h
  · cases h
  · split at h
    · cases h
    · cases h
      rw [hfold]

theorem yields_run (hcx : cx.OneLine) (hs : s.OneLine) :
    Yields cx Step.OneLine (run s) := by
  rw [run]
  refine yields_after fun _ => ?_
  refine yields_bind (yields_flagValues hcx hs _ _) fun raws hraws => ?_
  refine yields_bind (P := fun ms : List Mount => ∀ m ∈ ms, Text.OneLine m.raw)
    (yields_mapM' fun t ht => ?_) fun mounts hmounts => ?_
  · split
    · rename_i m hm
      apply yields_pure
      rw [raw_of_readMount hm]
      exact hraws t ht
    · exact yields_malformed _ _
  refine yields_after fun _ => ?_
  refine yields_after fun network => ?_
  refine yields_after fun _ => ?_
  refine yields_after fun security => ?_
  -- the flags that are one of a few names need no argument
  have hdone : ∀ c : Command, c.OneLine →
      Yields cx Step.OneLine
        (pure (.run ⟨c, mounts, network, security, s.heredocs⟩)) := by
    intro c hc
    apply yields_pure
    rw [Step.OneLine, Step.texts, List.forall_mem_append]
    refine ⟨hc, ?_⟩
    intro t ht
    obtain ⟨m, hm, rfl⟩ := List.mem_map.mp ht
    exact hmounts m hm
  cases ha : s.args with
  | exec items => exact hdone (.exec items) fun t ht => absurd ht List.not_mem_nil
  | text t =>
    dsimp only
    split
    · exact yields_bind (yields_malformed _ _) hdone
    · exact yields_bind (yields_shell hcx (hs.args t ha).trim) hdone

theorem yields_shellArgs : Yields cx Step.OneLine
    (shell s) := by
  rw [shell]
  split
  · exact yields_malformed _ _
  · exact yields_pure fun t ht => absurd ht List.not_mem_nil
  · exact yields_malformed _ _

theorem yields_healthCommand (hcx : cx.OneLine) {t : Text} (h : Text.OneLine t) :
    Yields cx Command.OneLine (healthCommand s t) := by
  rw [healthCommand]
  split
  · apply yields_map
    exact (yields_trivial _).mono fun items _ t ht => absurd ht List.not_mem_nil
  · split
    · exact yields_malformed _ _
    · exact yields_shell hcx h

theorem yields_healthcheck (hcx : cx.OneLine) (h : Text.OneLine s.text) :
    Yields cx Step.OneLine (healthcheck s) := by
  rw [healthcheck]
  refine yields_after fun _ => ?_
  dsimp only
  split
  · split
    · exact yields_malformed _ _
    · exact yields_pure fun t ht => absurd ht List.not_mem_nil
  · split
    · exact yields_malformed _ _
    · refine yields_bind (yields_healthCommand hcx h.firstWord.2) fun c hc => ?_
      refine yields_after fun _ => ?_
      refine yields_after fun _ => ?_
      refine yields_after fun _ => ?_
      refine yields_after fun _ => ?_
      refine yields_after fun _ => ?_
      exact yields_pure hc

/-! ## Declarations -/

theorem yields_pair (hcx : cx.OneLine) {w : Text} (h : Text.OneLine w) :
    Yields cx (fun p : KeyValue => ∀ t ∈ p.texts, Text.OneLine t) (pair s w) := by
  rw [pair]
  refine yields_bind yields_context fun d hd => ?_
  cases hc : Word.cut? d.escape '=' w with
  | none => exact yields_malformed _ _
  | some p =>
    obtain ⟨hname, hraw⟩ := Word.oneLine_cut? h hc
    dsimp only
    split
    · exact yields_malformed _ _
    · refine yields_bind (yields_word hcx hraw) fun value hvalue => ?_
      apply yields_pure
      rw [KeyValue.texts, List.forall_mem_cons, List.forall_mem_singleton]
      exact ⟨Word.oneLine_value hname, hvalue⟩

theorem yields_restOfLine (hcx : cx.OneLine) (h : Text.OneLine s.text) {first : Text}
    (hfirst : Text.OneLine first) :
    Yields cx (fun p : KeyValue => ∀ t ∈ p.texts, Text.OneLine t) (restOfLine s first) := by
  rw [restOfLine]
  dsimp only
  split
  · exact yields_malformed _ _
  · refine yields_bind yields_context fun d hd => ?_
    refine yields_bind (yields_word hcx h.firstWord.2) fun value hvalue => ?_
    apply yields_pure
    rw [KeyValue.texts, List.forall_mem_cons, List.forall_mem_singleton]
    exact ⟨Word.oneLine_value hfirst, hvalue⟩

theorem yields_pairs (hcx : cx.OneLine) (h : Text.OneLine s.text) :
    Yields cx (fun ps : List KeyValue => ∀ t ∈ ps.flatMap KeyValue.texts, Text.OneLine t)
      (pairs s) := by
  have hflat : ∀ ps : List KeyValue, (∀ p ∈ ps, ∀ t ∈ p.texts, Text.OneLine t) →
      ∀ t ∈ ps.flatMap KeyValue.texts, Text.OneLine t := by
    intro ps hps t ht
    obtain ⟨p, hp, ht⟩ := List.mem_flatMap.mp ht
    exact hps p hp t ht
  rw [pairs]
  refine yields_bind (yields_rawWords h) fun ws hws => ?_
  cases ws with
  | nil => exact yields_malformed _ _
  | cons first others =>
    rw [List.forall_mem_cons] at hws
    refine yields_bind yields_context fun d hd => ?_
    split
    · refine yields_bind (yields_restOfLine hcx h hws.1) fun p hp => ?_
      exact yields_pure (hflat [p] (List.forall_mem_singleton.mpr hp))
    · refine (yields_mapM' fun w hw => yields_pair hcx ?_).mono hflat
      rcases List.mem_cons.mp hw with rfl | hw
      · exact hws.1
      · exact hws.2 w hw

theorem yields_declaration (hcx : cx.OneLine) {w : Text} (h : Text.OneLine w) :
    Yields cx (fun d : ArgDecl => ∀ t ∈ d.texts, Text.OneLine t) (declaration s w) := by
  rw [declaration]
  refine yields_bind yields_context fun d hd => ?_
  cases hc : Word.cut? d.escape '=' w with
  | none =>
    dsimp only
    split
    · exact yields_malformed _ _
    · exact yields_pure (List.forall_mem_singleton.mpr h)
  | some p =>
    obtain ⟨hname, hraw⟩ := Word.oneLine_cut? h hc
    dsimp only
    refine yields_bind (yields_word hcx hraw) fun value hvalue => ?_
    split
    · exact yields_malformed _ _
    · apply yields_pure
      exact List.forall_mem_cons.mpr ⟨hname, List.forall_mem_singleton.mpr hvalue⟩

theorem yields_arg (hcx : cx.OneLine) (h : Text.OneLine s.text) :
    Yields cx Step.OneLine (arg s) := by
  rw [arg]
  refine yields_bind (yields_rawWords h) fun ws hws => ?_
  split
  · exact yields_malformed _ _
  · refine yields_bind (yields_mapM' fun w hw => yields_declaration hcx (hws w hw)) fun ds hds => ?_
    apply yields_pure
    intro t ht
    obtain ⟨d, hd, ht⟩ := List.mem_flatMap.mp ht
    exact hds d hd t ht

theorem oneLine_of_readPort {t : Text} {p : Port} (h : Text.OneLine t)
    (hp : readPort t = .ok p) : Text.OneLine p.port := by
  rw [readPort] at hp
  cases hs : Text.splitOnce '/' t with
  | none =>
    rw [hs] at hp
    dsimp only at hp
    split at hp
    · cases hp
      exact h
    · cases hp
  | some q =>
    rw [hs] at hp
    dsimp only at hp
    split at hp
    · cases hp
    · split at hp
      · cases hp
        exact (h.splitOnce hs).1
      · cases hp

theorem oneLine_of_readPorts {ts : List Text} {ps : List Port} (h : ∀ t ∈ ts, Text.OneLine t)
    (hp : ts.mapM' readPort = .ok ps) : ∀ p ∈ ps, Text.OneLine p.port := by
  have hread := exceptMapM'_eq_ok_iff.mp hp
  clear hp
  induction hread with
  | nil => exact List.forall_mem_nil _
  | cons ht _ ih =>
    rw [List.forall_mem_cons] at h ⊢
    exact ⟨oneLine_of_readPort h.1 ht, ih h.2⟩

theorem yields_expose (hcx : cx.OneLine) (h : Text.OneLine s.text) :
    Yields cx Step.OneLine (expose s) := by
  rw [expose]
  refine yields_bind (yields_words hcx h) fun ws hws => ?_
  dsimp only
  split
  · exact yields_malformed _ _
  · exact yields_malformed _ _
  · rename_i ports hports
    apply yields_pure
    intro t ht
    obtain ⟨p, hp, rfl⟩ := List.mem_map.mp ht
    exact oneLine_of_readPorts (fun w hw => hws w (List.mem_of_mem_filter hw)) hports p hp

theorem yields_user (hcx : cx.OneLine) (h : Text.OneLine s.text) :
    Yields cx Step.OneLine (user s) := by
  rw [user]
  refine yields_bind (yields_words hcx h) fun ws hws => ?_
  split
  · rename_i spec
    rw [List.forall_mem_singleton] at hws
    cases hc : Text.splitOnce ':' spec with
    | none =>
      dsimp only
      split
      · exact yields_malformed _ _
      · exact yields_pure (List.forall_mem_singleton.mpr hws)
    | some p =>
      obtain ⟨hname, hgroup⟩ := hws.splitOnce hc
      dsimp only
      split
      · exact yields_malformed _ _
      · exact yields_pure (List.forall_mem_cons.mpr ⟨hname, List.forall_mem_singleton.mpr hgroup⟩)
  · exact yields_malformed _ _

theorem yields_stopsignal (hcx : cx.OneLine) (h : Text.OneLine s.text) :
    Yields cx Step.OneLine (stopsignal s) := by
  rw [stopsignal]
  refine yields_bind (yields_words hcx h) fun ws hws => ?_
  split
  · exact yields_pure hws
  · exact yields_malformed _ _

/-! ## Files -/

theorem yields_fromImage (hcx : cx.OneLine) (hs : s.OneLine) (h : Text.OneLine s.text) :
    Yields cx (fun b => (Instruction.fromImage b).OneLine) (fromImage s) := by
  rw [fromImage]
  refine yields_after fun _ => ?_
  refine yields_bind (yields_flagValue hcx hs _ _) fun platform hplatform => ?_
  refine yields_bind (yields_rawWords h) fun ws hws => ?_
  cases hb : baseWords ws with
  | error fault => exact yields_malformed _ _
  | ok p =>
    obtain ⟨imageWord, stageName⟩ := p
    obtain ⟨himage, hname⟩ := baseWords_mem hb
    dsimp only
    refine yields_bind (yields_wordValue hcx (hws imageWord himage)) fun value hvalue => ?_
    split
    · exact yields_malformed _ _
    · cases hi : ImageName.read value with
      | error fault => exact yields_malformed _ _
      | ok image =>
        have hrender : Text.OneLine image.render := by
          rw [ImageName.render_of_read hi]
          exact hvalue.trim
        have hdone : ∀ name : Option Text, (∀ n ∈ name, Text.OneLine n) →
            (Instruction.fromImage ⟨image, platform, name⟩).OneLine := by
          intro name hn
          show ∀ t ∈ image.render :: platform.toList ++ name.toList, Text.OneLine t
          rw [List.forall_mem_append, List.forall_mem_cons, oneLine_toList, oneLine_toList]
          exact ⟨⟨hrender, hplatform⟩, hn⟩
        cases stageName with
        | none => exact yields_pure (hdone none (by simp))
        | some name =>
          dsimp only
          split
          · refine yields_pure (hdone (some name) ?_)
            intro n hn
            rw [← Option.some.inj hn]
            exact hws name (hname name rfl)
          · exact yields_malformed _ _

/-- The paths are words, or they are printed as a JSON array. -/
theorem yields_paths (hcx : cx.OneLine) (hs : s.OneLine) :
    Yields cx (fun p => p.2 = false → ∀ t ∈ p.1, Text.OneLine t) (paths s) := by
  rw [paths]
  cases ha : s.args with
  | exec items =>
    refine yields_after fun ts => yields_pure ?_
    intro h
    cases h
  | text t =>
    refine yields_bind (yields_words hcx (hs.args t ha)) fun ts hts => yields_pure ?_
    intro _
    exact hts

theorem yields_source {value : Text} (h : Text.OneLine value) :
    Yields cx (fun r : StageRef => Text.OneLine r.render) (source s value) := by
  rw [source]
  refine yields_bind yields_context fun d hd => ?_
  split
  · exact yields_pure h
  · cases Aliases.resolveEarlier d.aliases value with
    | some index => exact yields_pure h
    | none =>
      dsimp only
      split
      · cases hi : ImageName.read value with
        | error fault => exact yields_malformed _ _
        | ok image =>
          refine yields_pure ?_
          rw [StageRef.render, ImageName.render_of_read hi]
          exact h.trim
      · exact yields_fail _

theorem yields_transfer (hcx : cx.OneLine) (hs : s.OneLine) {chown chmod : Option Text}
    {link : Bool} {exclude : List Text} (hchown : ∀ v ∈ chown, Text.OneLine v)
    (hchmod : ∀ v ∈ chmod, Text.OneLine v) (hexclude : ∀ v ∈ exclude, Text.OneLine v) :
    Yields cx (fun files : Transfer => ∀ t ∈ files.texts, Text.OneLine t)
      (transfer s chown chmod link exclude) := by
  rw [transfer]
  refine yields_bind (yields_paths hcx hs) fun p hp => ?_
  obtain ⟨ps, execForm⟩ := p
  dsimp only
  cases hlast : ps.getLast? with
  | none => exact yields_malformed _ _
  | some destination =>
    dsimp only
    split
    · exact yields_malformed _ _
    · apply yields_pure
      simp only [Transfer.texts, List.forall_mem_append, oneLine_toList]
      refine ⟨⟨⟨?_, hchown⟩, hchmod⟩, hexclude⟩
      cases execForm with
      | true => exact fun t ht => absurd ht List.not_mem_nil
      | false =>
        have hall := hp rfl
        rw [if_neg (by decide), List.forall_mem_append, List.forall_mem_singleton]
        exact ⟨fun t ht => hall t (List.dropLast_subset _ ht),
          hall destination (List.mem_of_getLast? hlast)⟩

theorem yields_copyFrom (hcx : cx.OneLine) (hs : s.OneLine) {source : Option StageRef}
    (hsource : ∀ r ∈ source, Text.OneLine r.render) :
    Yields cx Step.OneLine (copyFrom s source) := by
  refine yields_bind (yields_flagValue hcx hs _ _) fun chown hchown => ?_
  refine yields_bind (yields_flagValue hcx hs _ _) fun chmod hchmod => ?_
  refine yields_after fun link => ?_
  refine yields_after fun parents => ?_
  refine yields_bind (yields_flagValues hcx hs _ _) fun exclude hexclude => ?_
  refine yields_bind (yields_transfer hcx hs hchown hchmod hexclude) fun files hfiles => ?_
  apply yields_pure
  rw [Step.OneLine, Step.texts, List.forall_mem_append, oneLine_toList]
  refine ⟨hfiles, ?_⟩
  intro v hv
  obtain ⟨r, hr, rfl⟩ := Option.map_eq_some_iff.mp hv
  exact hsource r hr

theorem yields_copy (hcx : cx.OneLine) (hs : s.OneLine) :
    Yields cx Step.OneLine (copy s) := by
  rw [copy_eq]
  refine yields_after fun _ => ?_
  refine yields_bind (yields_flagValue hcx hs _ _) fun value hvalue => ?_
  refine yields_bind (P := fun r : Option StageRef => ∀ q ∈ r, Text.OneLine q.render) ?_
    fun source hsource => yields_copyFrom hcx hs hsource
  cases value with
  | none => exact yields_pure (by simp)
  | some value =>
    apply yields_map
    exact (yields_source (hvalue value rfl)).mono fun r hr q hq => by
      rw [← Option.some.inj hq]
      exact hr

theorem yields_add (hcx : cx.OneLine) (hs : s.OneLine) :
    Yields cx Step.OneLine (add s) := by
  rw [add]
  refine yields_after fun _ => ?_
  refine yields_bind (yields_flagValue hcx hs _ _) fun chown hchown => ?_
  refine yields_bind (yields_flagValue hcx hs _ _) fun chmod hchmod => ?_
  refine yields_bind (yields_flagValue hcx hs _ _) fun checksum hchecksum => ?_
  refine yields_after fun keepGitDir => ?_
  refine yields_after fun link => ?_
  refine yields_bind (yields_flagValues hcx hs _ _) fun exclude hexclude => ?_
  refine yields_bind (yields_transfer hcx hs hchown hchmod hexclude) fun files hfiles => ?_
  apply yields_pure
  rw [Step.OneLine, Step.texts, List.forall_mem_append, oneLine_toList]
  exact ⟨hfiles, hchecksum⟩

theorem yields_volume (hcx : cx.OneLine) (hs : s.OneLine) :
    Yields cx Step.OneLine (volume s) := by
  rw [volume]
  refine yields_bind (yields_paths hcx hs) fun p hp => ?_
  obtain ⟨ps, execForm⟩ := p
  dsimp only
  split
  · exact yields_malformed _ _
  · split
    · exact yields_malformed _ _
    · apply yields_pure
      cases execForm with
      | true => exact fun t ht => absurd ht List.not_mem_nil
      | false => exact hp rfl

theorem yields_workdir (hcx : cx.OneLine) (h : Text.OneLine s.text) :
    Yields cx Step.OneLine (workdir s) := by
  rw [workdir]
  refine yields_bind (yields_wordValue hcx h.trim) fun path hpath => ?_
  split
  · exact yields_malformed _ _
  · exact yields_pure (List.forall_mem_singleton.mpr hpath)

/-! ## Instructions -/

theorem yields_step (hcx : cx.OneLine) (hs : s.OneLine) :
    Yields cx Step.OneLine (step s) := by
  -- where no array may stand, the arguments are the text of the statement
  have htext : ∀ k, s.keyword = k → k.acceptsExecForm = false → Text.OneLine s.text :=
    fun k hk hexec => hs.text (by rw [hk, hexec])
  unfold step
  cases hk : s.keyword with
  | run => exact yields_run hcx hs
  | cmd => exact yields_map (yields_command hcx hs)
  | entrypoint => exact yields_map (yields_command hcx hs)
  | copy => exact yields_copy hcx hs
  | add => exact yields_add hcx hs
  | env => exact yields_map (yields_pairs hcx (htext _ hk rfl))
  | label => exact yields_map (yields_pairs hcx (htext _ hk rfl))
  | arg => exact yields_arg hcx (htext _ hk rfl)
  | expose => exact yields_expose hcx (htext _ hk rfl)
  | volume => exact yields_volume hcx hs
  | workdir => exact yields_workdir hcx (htext _ hk rfl)
  | user => exact yields_user hcx (htext _ hk rfl)
  | shell => exact yields_shellArgs
  | stopsignal => exact yields_stopsignal hcx (htext _ hk rfl)
  | healthcheck => exact yields_healthcheck hcx (htext _ hk rfl)
  | fromImage | onbuild | maintainer => exact yields_fail _

theorem yields_onbuild (h : Text.OneLine s.text) :
    Yields cx Step.OneLine (onbuild s) := by
  rw [onbuild]
  split
  · exact yields_malformed _ _
  · refine yields_bind (yields_ofExcept fun payload hp => Statement.oneLine_of_read h hp)
      fun payload hpayload => ?_
    -- a trigger is read without variables
    exact yields_step (fun scope hscope => by cases hscope) hpayload

theorem yields_instruction (hcx : cx.OneLine) (hs : s.OneLine) :
    Yields cx Instruction.OneLine (instruction s) := by
  have htext : ∀ k, s.keyword = k → k.acceptsExecForm = false → Text.OneLine s.text :=
    fun k hk hexec => hs.text (by rw [hk, hexec])
  unfold instruction
  cases hk : s.keyword with
  | fromImage => exact yields_map (yields_fromImage hcx hs (htext _ hk rfl))
  | onbuild => exact yields_map (yields_onbuild (htext _ hk rfl))
  | maintainer =>
    apply yields_map
    rw [maintainer]
    split
    · exact yields_malformed _ _
    · exact yields_pure (List.forall_mem_singleton.mpr (htext _ hk rfl).trim)
  | _ => exact yields_map (yields_step hcx hs)

/-- **An instruction that is read from one line has its texts on one line each.** -/
theorem oneLine_line (hcx : cx.OneLine) {l : LogicalLine} (h : Text.OneLine l.text) :
    Yields cx Instruction.OneLine (line l) :=
  yields_bind (yields_ofExcept fun _ hs => Statement.oneLine_of_read h hs)
    fun _ hs => yields_instruction hcx hs

end Grammar

end Containerfile
