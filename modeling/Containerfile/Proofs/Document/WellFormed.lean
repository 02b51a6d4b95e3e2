import Containerfile.Proofs.Document.Passage

/-! # Documents are well-formed

Whatever is read and however, a document that comes of it has a stage, its stages and bindings are
where they belong, and a FROM stands at the start of each stage and nowhere else.

`Progress.WellFormed` says so of a place between two logical lines, with its assembly and its scope
in step.  It is kept by an instruction that is taken (`Progress.Placed.wellFormed`), so by a line
that is dealt with in any way, dropped lines and renamed stages included
(`Progress.Handled.wellFormed`), and so by all lines.

Main statement: `Document.wellFormed_of_readLines`. -/
namespace Containerfile

/-- Bindings are made where they belong: in a stage, or by an ARG before the first one. -/
theorem Progress.wellFormed_declare {sc : Scope} {i : Instruction} (h : sc.WellFormed)
    (hi : sc.stages.size = 0 → i.keyword = .arg) (index : Nat) :
    (declare sc index i).WellFormed ∧ (declare sc index i).stages.size = sc.stages.size := by
  refine declare_invariant
    (I := fun r => r.WellFormed ∧ r.stages.size = sc.stages.size) ?_ ?_ ⟨h, rfl⟩
  · rintro args rfl a ha r ⟨hr, hsize⟩
    exact ⟨hr.declareArg a.name a.default index, (Scope.size_bind r _).trans hsize⟩
  · rintro vars rfl v hv r ⟨hr, hsize⟩
    refine ⟨hr.declareEnv ?_ v.key v.value index, (Scope.size_bind r _).trans hsize⟩
    -- an ENV is no ARG, so a stage is open
    intro hempty
    cases hi (hsize.symm.trans hempty)

namespace Progress

variable {settings : Settings} {p q r : Progress} {index : Nat} {e : Entry} {t : Trace}
  {ts : List Trace}

/-- Whether a place is as it should be between two logical lines. -/
structure WellFormed (p : Progress) : Prop where
  assembly : p.assembly.WellFormed
  scope : p.scope.WellFormed
  inStep : p.scope.stages.size = p.assembly.stages.size
  globals : ∀ e ∈ p.globals, e.keyword = .arg

/-- What was found and how many lines there were does not matter. -/
theorem WellFormed.past (h : p.WellFormed) (found : List Diagnostic) :
    (p.past found).WellFormed := ⟨h.assembly, h.scope, h.inStep, h.globals⟩

/-- **An instruction that fits the stages before it keeps a place well-formed when it is taken.** -/
theorem Placed.wellFormed (h : Placed p index e q) (hp : p.WellFormed)
    (he : e.instruction.Fits p.assembly.aliases) : q.WellFormed := by
  obtain ⟨i, lines⟩ := e
  cases h with
  | opens hi ha =>
    cases hi
    refine ⟨hp.assembly.openStage (he.named _ rfl) ha, hp.scope.enterStage, ?_, hp.globals⟩
    obtain ⟨-, rfl⟩ := Assembly.openStage_eq_ok_iff.mp ha
    have hsize := hp.inStep
    simp only [opened, Scope.enterStage, Draft.size_begin]
    omega
  | declares hi hs hk =>
    obtain ⟨hscope, hsize⟩ := wellFormed_declare hp.scope (fun _ => hk) index
    refine ⟨hp.assembly, hscope, hsize.trans hp.inStep, ?_⟩
    rw [List.forall_mem_append, List.forall_mem_singleton]
    exact ⟨hp.globals, hk⟩
  | joins hi ha =>
    have hfrom : Entry.keyword ⟨i, lines⟩ ≠ .fromImage := by
      intro hk
      obtain ⟨base, hbase⟩ := Instruction.keyword_eq_fromImage_iff.mp hk
      exact hi base hbase
    have hassembly := hp.assembly.push hfrom ha
    obtain ⟨hstage, rfl⟩ := Assembly.push_eq_ok_iff.mp ha
    -- a stage is open in the assembly, and so in the scope
    have hopen : p.scope.stages.size ≠ 0 := by
      rw [hp.inStep]
      exact Assembly.hasStage_iff.mp hstage
    obtain ⟨hscope, hsize⟩ :=
      wellFormed_declare (i := i) hp.scope (fun hempty => absurd hempty hopen) index
    exact ⟨hassembly, hscope, (hsize.trans hp.inStep).trans (Draft.size_modify _ _).symm,
      hp.globals⟩

/-- **Every line that is dealt with keeps a place well-formed.** -/
theorem Handled.wellFormed (h : Handled settings p t q) (hp : p.WellFormed) : q.WellFormed := by
  rcases h.landed with ⟨-, rfl⟩ | ⟨e, -, hfits, hq⟩
  · exact hp.past t.found
  · exact hq.wellFormed (hp.past t.found) hfits

theorem Passage.wellFormed (h : Passage settings p ts r) (hp : p.WellFormed) : r.WellFormed :=
  h.invariant (fun _ _ _ ht => ht.wellFormed) hp

end Progress

namespace Document

theorem wellFormed_start (layout : Layout) : (start layout).WellFormed where
  assembly := Assembly.wellFormed_empty
  scope := Scope.wellFormed_empty _
  inStep := rfl
  globals := by simp [start]

/-- Whether a document is as it should be. -/
structure WellFormed (d : Document) : Prop where
  nonempty : d.stages ≠ []
  /-- Stages know where they stand. -/
  indexed : ∀ (k : Nat) (s : Stage), d.stages[k]? = some s → s.index = k
  /-- A stage starts with the FROM that gives it its name, and has no other one. -/
  opening : ∀ s ∈ d.stages, ∃ base lines rest, s.entries = ⟨.fromImage base, lines⟩ :: rest ∧
    base.stageName = s.givenName ∧ ∀ e ∈ rest, e.keyword ≠ .fromImage
  /-- Names are a letter, then letters, digits, `-`, `_` and `.`. -/
  named : ∀ s ∈ d.stages, ∀ name ∈ s.givenName, ∃ c t, name = c :: t ∧ c.isAlpha = true ∧
    ∀ x ∈ t, x.isAlphanum = true ∨ x ∈ ['-', '_', '.']
  /-- Names differ in more than the case of their letters. -/
  distinct : d.stages.Pairwise fun s t =>
    ∀ m ∈ s.givenName, ∀ n ∈ t.givenName, Text.sameName m n = false
  /-- A stage is built on earlier ones only. -/
  backward : ∀ s ∈ d.stages, ∀ index, s.base = .stage index → index < s.index
  /-- Before the first stage there are only ARGs. -/
  globals : ∀ e ∈ d.globals, e.keyword = .arg
  globalArgs : ∀ b ∈ d.globalArgs, b.origin = .arg ∧ b.extent = .global
  /-- The bindings of a stage are its own, each name once. -/
  bindings : ∀ s ∈ d.stages, (∀ b ∈ s.bindings, b.extent = .stage s.index) ∧
    (s.bindings.map Binding.name).Nodup
  triggers : ∀ e ∈ d.entries, ∀ trigger, e.instruction = .onbuild trigger →
    trigger.keyword ∉ [.fromImage, .onbuild, .maintainer]

theorem exists_of_isStageName {name : Text} (h : Grammar.isStageName name = true) :
    ∃ c t, name = c :: t ∧ c.isAlpha = true ∧
      ∀ x ∈ t, x.isAlphanum = true ∨ x ∈ ['-', '_', '.'] := by
  cases name with
  | nil => cases h
  | cons c t =>
    rw [Grammar.isStageName, Bool.and_eq_true, List.all_eq_true] at h
    refine ⟨c, t, rfl, h.1, fun x hx => ?_⟩
    have hchar := h.2 x hx
    simp only [Bool.or_eq_true, beq_iff_eq] at hchar
    rcases hchar with ((hchar | rfl) | rfl) | rfl
    · exact Or.inl hchar
    · exact Or.inr (by simp)
    · exact Or.inr (by simp)
    · exact Or.inr (by simp)

/-- A document that is put together at a well-formed place is well-formed. -/
theorem wellFormed_final {p : Progress} (hp : p.WellFormed)
    (hcheck : checkDocument p.count (p.assembly.finish p.scope) = none) (directives : Directives) :
    (p.final directives).WellFormed where
  nonempty := by
    intro hempty
    have hempty : p.assembly.finish p.scope = [] := hempty
    rw [checkDocument, hempty] at hcheck
    split at hcheck
    · cases hcheck
    · cases hcheck
  indexed := by
    intro k s hs
    have hs : (p.assembly.finish p.scope)[k]? = some s := hs
    rw [Assembly.finish, List.getElem?_map, Option.map_eq_some_iff] at hs
    obtain ⟨t, ht, rfl⟩ := hs
    exact hp.assembly.indexed k t ht
  opening := by
    intro s hs
    obtain ⟨t, ht, rfl⟩ := Assembly.mem_finish.mp hs
    exact ⟨_, _, _, rfl, rfl, (hp.assembly.stages t ht).body⟩
  named := by
    intro s hs
    obtain ⟨t, ht, rfl⟩ := Assembly.mem_finish.mp hs
    exact fun name hname => exists_of_isStageName ((hp.assembly.stages t ht).named name hname)
  distinct := by
    have hdistinct := hp.assembly.distinct
    rw [← Assembly.map_givenName_finish p.assembly p.scope, Aliases.Distinct,
      List.pairwise_map] at hdistinct
    refine hdistinct.imp fun hst m hm n hn => ?_
    rw [Text.sameName, beq_eq_false_iff_ne]
    exact hst m hm n hn
  backward := by
    intro s hs
    obtain ⟨t, ht, rfl⟩ := Assembly.mem_finish.mp hs
    exact (hp.assembly.stages t ht).backward
  globals := hp.globals
  globalArgs := fun b hb => ⟨hp.scope.args b hb, hp.scope.global.extent b hb⟩
  bindings := by
    intro s hs
    obtain ⟨t, ht, rfl⟩ := Assembly.mem_finish.mp hs
    have hbindings := hp.scope.bindingsOf t.index
    exact ⟨hbindings.extent, hbindings.names⟩
  triggers := by
    intro e _ trigger _
    simpa using trigger.keyword_ne

/-- **Every document that is read is well-formed**, with failures recorded or not. -/
theorem wellFormed_of_readLines (settings : Settings) (texts : List Text) (d : Document)
    (h : readLines settings texts = .ok d) : d.WellFormed := by
  obtain ⟨ts, p, -, hpassage, -, hcheck, rfl⟩ := passage_of_readLines h
  exact wellFormed_final (hpassage.wellFormed (wellFormed_start _)) hcheck _

/-- A name that is taken but for its case, and a line that is dropped. -/
theorem wellFormed_of_readLines_takenName :
    ∃ d, readLines .tolerant ["ARG V=1".toList, "FROM scratch AS base".toList, "NOPE".toList,
        "ENV V=2 W=3".toList, "FROM base AS Base".toList, "ARG V".toList,
        "ONBUILD RUN x".toList] = .ok d ∧
      d.stages.map Stage.base = [.scratch, .stage 0] ∧ d.WellFormed := by
  obtain ⟨d, hd, hbases⟩ := ok_of_map (x := readLines .tolerant ["ARG V=1".toList,
    "FROM scratch AS base".toList, "NOPE".toList, "ENV V=2 W=3".toList,
    "FROM base AS Base".toList, "ARG V".toList, "ONBUILD RUN x".toList])
    (f := fun d => d.stages.map Stage.base) (b := [.scratch, .stage 0]) (by decide +kernel)
  exact ⟨d, hd, hbases, wellFormed_of_readLines _ _ d hd⟩

end Document

end Containerfile
