import Containerfile.Proofs.Grammar.Keyword
import Containerfile.Proofs.Grammar.Substitution

/-! # The shape of an instruction

Statements are cut into arguments before anything is filled in, so variables decide about values and
about nothing else.  `Instruction.shape` is what is left of an instruction without them: the keys
and names that ENV, LABEL and ARG give values to, and the number of paths of COPY, ADD and VOLUME.

`Grammar.Shaped` relates two runs in two contexts by what they read of a part that is not a value,
failures included, with one rule for each way of putting grammars together.  The number of paths is
known from the statement alone (`Statement.pathCount`).  Main statement:
`Grammar.shape_of_scope`. -/
namespace Containerfile

/-! ## Shapes -/

/-- The arguments of an instruction without their values. -/
inductive Shape where
  /-- Keys in order, and whether each was written with `=`; names of ARG, and whether each has a
  default. -/
  | named (names : List (Text × Bool))
  /-- The number of paths. -/
  | paths (count : Nat)
  /-- Arguments that are neither. -/
  | other
  deriving DecidableEq, Repr

/-- The key of a pair, and whether it was written with `=`. -/
def KeyValue.head (p : KeyValue) : Text × Bool := (p.key, p.hasEquals)

/-- The name of a declaration, and whether it has a default. -/
def ArgDecl.head (d : ArgDecl) : Text × Bool := (d.name, d.default.isSome)

/-- The shape of a step. -/
def Step.shape : Step → Shape
  | env vars => .named (vars.map KeyValue.head)
  | label labels => .named (labels.map KeyValue.head)
  | arg args => .named (args.map ArgDecl.head)
  | copy files _ _ => .paths files.paths.length
  | add files _ _ => .paths files.paths.length
  | volume paths _ => .paths paths.length
  | _ => .other

/-- The shape of an instruction. -/
def Instruction.shape : Instruction → Shape
  | step st => st.shape
  | _ => .other

/-- The number of paths that a statement is cut into. -/
def Statement.pathCount (escape : Char) (s : Statement) : Nat :=
  match s.args with
  | .text t => (Word.split escape t).length
  | .exec items => items.length

namespace Grammar

variable {α β γ δ : Type} {cx cx' : Context} {g : α → γ} {h : β → δ}

/-! ## Two runs with the same shape -/

/-- Two grammars in two contexts read the same of something, or fail alike. -/
def Shaped (g : α → γ) (cx cx' : Context) (x y : Grammar α) : Prop :=
  (x cx).result.map g = (y cx').result.map g

theorem shaped_pure {a b : α} (hab : g a = g b) : Shaped g cx cx' (pure a) (pure b) :=
  congrArg Except.ok hab

theorem shaped_fail (e : Failure) : Shaped g cx cx' (fail e) (fail e) := rfl

theorem shaped_malformed (s : Statement) (fault : Fault) :
    Shaped g cx cx' (malformed s fault) (malformed s fault) := shaped_fail _

theorem shaped_bind {x y : Grammar α} {f f' : α → Grammar β} (hx : Shaped g cx cx' x y)
    (hf : ∀ a b, g a = g b → Shaped h cx cx' (f a) (f' b)) :
    Shaped h cx cx' (x >>= f) (y >>= f') := by
  rw [Shaped] at hx
  rw [Shaped, bind_run, bind_run, andThen, andThen]
  cases hrx : (x cx).result with
  | error e =>
    cases hry : (y cx').result with
    | error e' =>
      rw [hrx, hry] at hx
      cases hx
      rfl
    | ok b =>
      rw [hrx, hry] at hx
      cases hx
  | ok a =>
    cases hry : (y cx').result with
    | error e' =>
      rw [hrx, hry] at hx
      cases hx
    | ok b =>
      rw [hrx, hry] at hx
      exact hf a b (Except.ok.inj hx)

theorem shaped_mapM' {f : α → Grammar β} {l : List α}
    (hf : ∀ a ∈ l, Shaped h cx cx' (f a) (f a)) :
    Shaped (List.map h) cx cx' (l.mapM' f) (l.mapM' f) := by
  induction l with
  | nil => exact shaped_pure rfl
  | cons a l ih =>
    rw [List.forall_mem_cons] at hf
    rw [List.mapM'_cons]
    refine shaped_bind hf.1 fun b c hbc => ?_
    refine shaped_bind (ih hf.2) fun bs cs hbcs => ?_
    apply shaped_pure
    rw [List.map_cons, List.map_cons, hbc, hbcs]

theorem shaped_context (he : cx.escape = cx'.escape) :
    Shaped Context.escape cx cx' context context := congrArg Except.ok he

theorem shaped_rawWords (he : cx.escape = cx'.escape) (t : Text) :
    Shaped id cx cx' (rawWords t) (rawWords t) := by
  rw [Shaped, rawWords_run, rawWords_run, he]

/-- A word has a value whatever the variables are. -/
theorem shaped_word (v : Visibility) (raw : Text) :
    Shaped (fun _ => ()) cx cx' (word v raw) (word v raw) := by
  rw [Shaped, word_run, word_run]
  rfl

/-! ## Names -/

section Names

variable {s : Statement}

theorem shaped_pair (he : cx.escape = cx'.escape) (w : Text) :
    Shaped KeyValue.head cx cx' (pair s w) (pair s w) := by
  refine shaped_bind (shaped_context he) fun d d' hd => ?_
  rw [hd]
  cases Word.cut? d'.escape '=' w with
  | none => exact shaped_malformed s _
  | some p =>
    dsimp only
    split
    · exact shaped_malformed s _
    · exact shaped_bind (shaped_word .everywhere _) fun _ _ _ => shaped_pure rfl

theorem shaped_restOfLine (he : cx.escape = cx'.escape) (first : Text) :
    Shaped KeyValue.head cx cx' (restOfLine s first) (restOfLine s first) := by
  rw [restOfLine]
  dsimp only
  split
  · exact shaped_malformed s _
  · refine shaped_bind (shaped_context he) fun d d' hd => ?_
    rw [hd]
    exact shaped_bind (shaped_word .everywhere _) fun _ _ _ => shaped_pure rfl

/-- **The keys of ENV and LABEL do not depend on variables**, and neither does a failure. -/
theorem shaped_pairs (he : cx.escape = cx'.escape) :
    Shaped (List.map KeyValue.head) cx cx' (pairs s) (pairs s) := by
  refine shaped_bind (shaped_rawWords he s.text) ?_
  rintro ws _ rfl
  cases ws with
  | nil => exact shaped_malformed s _
  | cons first others =>
    refine shaped_bind (shaped_context he) fun d d' hd => ?_
    rw [hd]
    split
    · refine shaped_bind (shaped_restOfLine he first) fun p q hpq => shaped_pure ?_
      exact congrArg (fun name => [name]) hpq
    · exact shaped_mapM' fun w _ => shaped_pair he w

theorem shaped_declaration (he : cx.escape = cx'.escape) (w : Text) :
    Shaped ArgDecl.head cx cx' (declaration s w) (declaration s w) := by
  refine shaped_bind (shaped_context he) fun d d' hd => ?_
  rw [hd]
  cases Word.cut? d'.escape '=' w with
  | none =>
    dsimp only
    split
    · exact shaped_malformed s _
    · exact shaped_pure rfl
  | some p =>
    refine shaped_bind (shaped_word .everywhere p.2) fun value value' _ => ?_
    dsimp only
    split
    · exact shaped_malformed s _
    · exact shaped_pure rfl

/-- **The names of ARG do not depend on variables**, and neither does a failure. -/
theorem shaped_arg (he : cx.escape = cx'.escape) : Shaped Step.shape cx cx' (arg s) (arg s) := by
  refine shaped_bind (shaped_rawWords he s.text) ?_
  rintro ws _ rfl
  cases ws with
  | nil => exact shaped_malformed s _
  | cons w ws =>
    refine shaped_bind (shaped_mapM' fun v _ => shaped_declaration he v) fun ds es hds => ?_
    exact shaped_pure (congrArg Shape.named hds)

/-- A step that is made of what was read has its shape from it. -/
theorem shaped_map {k : α → β} {x y : Grammar α} (hx : Shaped g cx cx' x y)
    (hk : ∀ a b, g a = g b → h (k a) = h (k b)) : Shaped h cx cx' (k <$> x) (k <$> y) := by
  rw [map_eq_pure_bind, map_eq_pure_bind]
  exact shaped_bind hx fun a b hab => shaped_pure (hk a b hab)

end Names

/-! ## Paths -/

section Paths

variable {s : Statement}

theorem yields_length_mapM' {f : α → Grammar β} (l : List α) :
    Yields cx (fun bs => bs.length = l.length) (l.mapM' f) := by
  induction l with
  | nil => exact yields_pure rfl
  | cons a l ih =>
    rw [List.mapM'_cons]
    refine yields_after fun b => ?_
    refine yields_bind ih fun bs hbs => yields_pure ?_
    rw [List.length_cons, List.length_cons, hbs]

theorem pathCount_paths :
    Yields cx (fun p => p.1.length = s.pathCount cx.escape) (paths s) := by
  rw [paths, Statement.pathCount]
  cases s.args with
  | exec items =>
    dsimp only
    exact yields_bind (yields_length_mapM' items) fun ts hts => yields_pure hts
  | text t =>
    intro p hp
    obtain ⟨ws, hws, hp⟩ := ok_of_bind hp
    rw [words_run] at hws
    cases hws
    cases hp
    exact List.length_map _

theorem pathCount_transfer {chown chmod : Option Text} {link : Bool} {exclude : List Text} :
    Yields cx (fun files : Transfer => files.paths.length = s.pathCount cx.escape)
      (transfer s chown chmod link exclude) := by
  rw [transfer]
  refine yields_bind pathCount_paths fun p hp => ?_
  obtain ⟨ps, execForm⟩ := p
  dsimp only at hp ⊢
  cases hlast : ps.getLast? with
  | none => exact yields_malformed _ _
  | some destination =>
    dsimp only
    split
    · exact yields_malformed _ _
    · apply yields_pure
      rw [Transfer.paths, List.dropLast_append_getLast? _ hlast, hp]

/-- **Whatever its variables are, a statement has the paths that it is cut into.** -/
theorem pathCount_step (hk : s.keyword ∈ [.copy, .add, .volume]) :
    Yields cx (fun st => st.shape = .paths (s.pathCount cx.escape)) (step s) := by
  have htransfer : ∀ {k : Transfer → Step} {chown chmod : Option Text} {link : Bool}
      {exclude : List Text}, (∀ files, (k files).shape = .paths files.paths.length) →
      Yields cx (fun st => st.shape = .paths (s.pathCount cx.escape))
        (transfer s chown chmod link exclude >>= fun files => pure (k files)) := by
    intro k chown chmod link exclude hk
    refine yields_bind pathCount_transfer fun files hfiles => yields_pure ?_
    rw [hk, hfiles]
  unfold step
  simp only [List.mem_cons, List.not_mem_nil, or_false] at hk
  rcases hk with hk | hk | hk
  · rw [hk]
    dsimp only
    rw [copy_eq]
    refine yields_after fun _ => ?_
    refine yields_after fun _ => ?_
    refine yields_after fun r => ?_
    refine yields_after fun _ => ?_
    refine yields_after fun _ => ?_
    refine yields_after fun _ => ?_
    refine yields_after fun parents => ?_
    refine yields_after fun _ => ?_
    exact htransfer (k := fun files => .copy files r parents) fun _ => rfl
  · rw [hk]
    dsimp only
    rw [add]
    refine yields_after fun _ => ?_
    refine yields_after fun _ => ?_
    refine yields_after fun _ => ?_
    refine yields_after fun checksum => ?_
    refine yields_after fun keepGitDir => ?_
    refine yields_after fun _ => ?_
    refine yields_after fun _ => ?_
    exact htransfer (k := fun files => .add files checksum keepGitDir) fun _ => rfl
  · rw [hk]
    dsimp only
    rw [volume]
    refine yields_bind pathCount_paths fun p hp => ?_
    obtain ⟨ps, execForm⟩ := p
    dsimp only at hp ⊢
    split
    · exact yields_malformed _ _
    · split
      · exact yields_malformed _ _
      · exact yields_pure (congrArg Shape.paths hp)

end Paths

/-! ## Instructions -/

/-- Instructions that may be triggers are steps. -/
theorem instruction_eq_step {s : Statement} (hk : s.keyword ∉ [.fromImage, .onbuild, .maintainer]) :
    instruction s = .step <$> step s := by
  unfold instruction
  cases hs : s.keyword with
  | fromImage | onbuild | maintainer => exact absurd (by rw [hs]; decide) hk
  | _ => rfl

theorem shaped_instruction {s : Statement} (he : cx.escape = cx'.escape)
    (hk : s.keyword ∈ [.env, .label, .arg]) :
    Shaped Instruction.shape cx cx' (instruction s) (instruction s) := by
  have hpairs : Shaped (List.map KeyValue.head) cx cx' (pairs s) (pairs s) := shaped_pairs he
  simp only [List.mem_cons, List.not_mem_nil, or_false] at hk
  rw [instruction_eq_step (by rcases hk with hk | hk | hk <;> simp [hk])]
  refine shaped_map (g := Step.shape) ?_ fun _ _ hab => hab
  unfold step
  rcases hk with hk | hk | hk
  · rw [hk]
    exact shaped_map hpairs fun _ _ hab => congrArg Shape.named hab
  · rw [hk]
    exact shaped_map hpairs fun _ _ hab => congrArg Shape.named hab
  · rw [hk]
    exact shaped_arg he

theorem pathCount_instruction {s : Statement} (hk : s.keyword ∈ [.copy, .add, .volume]) :
    Yields cx (fun i => i.shape = .paths (s.pathCount cx.escape)) (instruction s) := by
  have hstep : s.keyword ∉ [.fromImage, .onbuild, .maintainer] := by
    simp only [List.mem_cons, List.not_mem_nil, or_false] at hk
    rcases hk with hk | hk | hk <;> simp [hk]
  rw [instruction_eq_step hstep]
  exact yields_map (pathCount_step hk)

/-- ENV, LABEL and ARG have names. -/
theorem exists_names {i : Instruction} (hk : i.keyword ∈ [.env, .label, .arg]) :
    ∃ names, i.shape = .named names := by
  rcases i with base | st | trigger | name
  · exact absurd hk (by simp [Instruction.keyword])
  · cases st with
    | env vars => exact ⟨_, rfl⟩
    | label labels => exact ⟨_, rfl⟩
    | arg args => exact ⟨_, rfl⟩
    | _ => exact absurd hk (by simp [Instruction.keyword, Step.keyword])
  · exact absurd hk (by simp [Instruction.keyword])
  · exact absurd hk (by simp [Instruction.keyword])

/-- **Variables give values and nothing else.**  Whatever the scope is, or without one, ENV, LABEL
and ARG fail alike or give values to the same names in the same order and in the same form, and
COPY, ADD and VOLUME have as many paths as their statement is cut into. -/
theorem shape_of_scope (s : Statement) (cx : Context) (scope : Option Scope) :
    (s.keyword ∈ [.env, .label, .arg] →
      (instruction s cx).result.map Instruction.shape =
          (instruction s { cx with scope := scope }).result.map Instruction.shape ∧
        ∀ i, (instruction s cx).result = .ok i → ∃ names, i.shape = .named names) ∧
      (s.keyword ∈ [.copy, .add, .volume] →
        ∀ i j, (instruction s cx).result = .ok i →
          (instruction s { cx with scope := scope }).result = .ok j →
          i.shape = .paths (s.pathCount cx.escape) ∧ j.shape = .paths (s.pathCount cx.escape)) := by
  refine ⟨fun hk => ⟨shaped_instruction rfl hk, ?_⟩, ?_⟩
  · intro i hi
    apply exists_names
    rwa [(takes_instruction i hi).1]
  · intro hk i j hi hj
    have hj' : j.shape = .paths (s.pathCount { cx with scope := scope }.escape) :=
      pathCount_instruction hk j hj
    exact ⟨pathCount_instruction hk i hi, hj'⟩

/-- A blank in a value makes no second argument. -/
theorem shape_of_scope_blank :
    (instruction (.ofWords .env "A=$M B=$N".toList (.single 4) [])
      (quoteAndBlank.context [none])).result.map
          Instruction.shape =
        (instruction (.ofWords .env "A=$M B=$N".toList (.single 4) [])
          { quoteAndBlank.context [none] with scope := none }).result.map Instruction.shape ∧
      (instruction (.ofWords .volume "$M /d".toList (.single 4) [])
        (quoteAndBlank.context [none])).result =
        .ok (.step (.volume ["x y".toList, "/d".toList] false)) ∧
      (Instruction.step (.volume ["x y".toList, "/d".toList] false)).shape = .paths 2 := by
  have hseen : (instruction (.ofWords .volume "$M /d".toList (.single 4) [])
      (quoteAndBlank.context [none])).result =
        .ok (.step (.volume ["x y".toList, "/d".toList] false)) := by
    decide +kernel
  have hunseen : (instruction (.ofWords .volume "$M /d".toList (.single 4) [])
      { quoteAndBlank.context [none] with scope := none }).result =
        .ok (.step (.volume ["$M".toList, "/d".toList] false)) := by
    decide +kernel
  have henv := shape_of_scope (.ofWords .env "A=$M B=$N".toList (.single 4) [])
    (quoteAndBlank.context [none]) none
  have hvolume := shape_of_scope (.ofWords .volume "$M /d".toList (.single 4) [])
    (quoteAndBlank.context [none]) none
  exact ⟨(henv.1 (by decide)).1, hseen, (hvolume.2 (by decide) _ _ hseen hunseen).1⟩

end Grammar

end Containerfile
