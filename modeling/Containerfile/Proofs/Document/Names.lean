import Containerfile.Proofs.Document.Bindings
import Containerfile.Proofs.Grammar.Reprinted

/-! # Names that are bound

A scope binds a name in one of its layers exactly if something declared the name, since a binding is
only ever replaced by one of the same name and a stage takes over none but names that were bound
(`Scope.binds_foldl_follow`).  So after a passage the names that are bound are those that the
entries declare (`Progress.Passage.binds_iff`).

No instruction declares nothing: ENV, LABEL and ARG have at least one name.  The names of ARG, and
the keys of pairs with an equals sign, are not blank either, since that is looked at when they are
read.  It is not looked at for a pair that takes the rest of the line.  There the key is what the
first word comes to without its quotes and escape characters, and that may be nothing, as in
`ENV "" x` (`Word.FirstBlank`).

Main statement: `Document.blankName_iff`. -/
namespace Containerfile

/-! ## Names of instructions -/

/-- The first word of a text is no pair with an equals sign, and nothing is left of it without its
quotes and escape characters. -/
def Word.FirstBlank (escape : Char) (t : Text) : Prop :=
  ∃ k ws, Word.split escape t = k :: ws ∧ Word.cut? escape '=' k = none ∧ Word.value escape k = []

/-- The names that an instruction declares. -/
def Instruction.names : Instruction → List Text
  | .step (.arg ds) => ds.map ArgDecl.name
  | .step (.env ps) => ps.map KeyValue.key
  | _ => []

namespace Grammar

variable {s : Statement} {cx : Context} {st : Step} {ps : List KeyValue} {ds : List ArgDecl}

/-- **Pairs have keys**, unless there is a single one whose key is a blank first word. -/
theorem keys_of_pairs (h : (pairs s cx).result = .ok ps) :
    ps ≠ [] ∧ ((∃ p ∈ ps, p.key = []) ↔ Word.FirstBlank cx.escape s.text) := by
  refine ⟨(formed_of_pairs h).ne_nil, ?_⟩
  obtain ⟨k, ws, hsplit, ⟨hcut, p, rfl, hp⟩ | ⟨hcut, hps⟩⟩ := of_pairs h
  · obtain ⟨-, -, hkey, -⟩ := restOfLine_eq_ok_iff.mp hp
    constructor
    · rintro ⟨q, hq, hblank⟩
      rw [List.mem_singleton.mp hq, hkey] at hblank
      exact ⟨k, ws, hsplit, hcut, hblank⟩
    · rintro ⟨k', ws', hsplit', -, hblank⟩
      rw [hsplit] at hsplit'
      cases hsplit'
      exact ⟨p, List.mem_singleton_self p, hkey.trans hblank⟩
  · have hkeys : ∀ p ∈ ps, p.hasEquals = true ∧ p.key ≠ [] :=
      yields_mapM' (fun w _ => yields_formed_pair w) ps hps
    constructor
    · rintro ⟨p, hp, hblank⟩
      exact absurd hblank (hkeys p hp).2
    · rintro ⟨k', ws', hsplit', hnone, -⟩
      rw [hsplit] at hsplit'
      cases hsplit'
      rw [hnone] at hcut
      cases hcut

theorem keys_of_instruction {f : List KeyValue → Step} (hf : Step.OfPairs s.keyword f)
    (h : (instruction s cx).result = .ok (.step st)) :
    st.keyValues ≠ [] ∧ ((∃ p ∈ st.keyValues, p.key = []) ↔ Word.FirstBlank cx.escape s.text) := by
  obtain ⟨ps, rfl, hps⟩ := (instruction_pairs_eq_ok_iff hf).mp h
  rw [hf.keyValues_eq]
  exact keys_of_pairs hps

/-- **Declarations have names.** -/
theorem names_of_instruction (h : (instruction s cx).result = .ok (.step (.arg ds))) :
    ds ≠ [] ∧ ∀ d ∈ ds, d.name ≠ [] := by
  have hkeyword : s.keyword = .arg := (takes_instruction _ h).1.symm
  obtain ⟨ds', hds', harg⟩ := (instruction_arg_eq_ok_iff hkeyword).mp h
  cases hds'
  obtain ⟨hne, hformed⟩ := formed_of_arg harg
  exact ⟨hne, fun d hd => (hformed d hd).1⟩

/-- An instruction declares a blank name exactly if it is an ENV whose first word is blank. -/
theorem nil_mem_names_iff {i : Instruction} (h : (instruction s cx).result = .ok i) :
    [] ∈ i.names ↔ s.keyword = .env ∧ Word.FirstBlank cx.escape s.text := by
  have hkeyword : i.keyword = s.keyword := (takes_instruction i h).1
  by_cases henv : s.keyword = .env
  · obtain ⟨f, hf⟩ := Step.OfPairs.exists_of_keyword (.inl henv)
    rw [henv] at hkeyword
    cases i with
    | fromImage | onbuild | maintainer => cases hkeyword
    | step st =>
      obtain ⟨-, hblank⟩ := keys_of_instruction hf h
      cases st with
      | env ps => simpa [Instruction.names, Step.keyValues, henv] using hblank
      | _ => cases hkeyword
  · refine iff_of_false (fun hmem => ?_) fun hblank => henv hblank.1
    cases i with
    | fromImage | onbuild | maintainer => cases hmem
    | step st =>
      cases st with
      | env ps => exact henv hkeyword.symm
      | arg ds =>
        obtain ⟨d, hd, hname⟩ := List.mem_map.mp hmem
        exact (names_of_instruction h).2 d hd hname
      | _ => cases hmem

end Grammar

/-! ## Names of scopes -/

namespace Scope

variable {sc : Scope} {name : Text}

/-- Whether a name is bound in a layer of a scope. -/
def Binds (sc : Scope) (name : Text) : Prop :=
  ∃ l ∈ sc.global :: sc.stages.toList, name ∈ l.map Binding.name

theorem mem_map_name_bind {b : Binding} {l : Layer} :
    name ∈ (l.bind b).map Binding.name ↔ name ∈ l.map Binding.name ∨ name = b.name := by
  rw [Layer.map_name_bind]
  split
  · rename_i hbound
    refine ⟨.inl, fun h => h.elim id fun heq => ?_⟩
    rwa [heq]
  · rw [List.mem_append, List.mem_singleton]

theorem binds_bind (sc : Scope) (b : Binding) :
    (sc.bind b).Binds name ↔ sc.Binds name ∨ name = b.name := by
  obtain ⟨escape, global, _ | ⟨settled, current⟩⟩ := sc
  · simp only [Binds, bind, Draft.toList_empty, List.mem_singleton, exists_eq_left,
      mem_map_name_bind]
  · simp only [Binds, bind, Draft.modify, Draft.toList, List.mem_cons, List.mem_append,
      List.not_mem_nil, or_false, or_and_right, exists_or, exists_eq_left, mem_map_name_bind,
      or_assoc]

/-- A stage takes over names that were bound. -/
theorem binds_enterStage (sc : Scope) : sc.enterStage.Binds name ↔ sc.Binds name := by
  constructor
  · rintro ⟨l, hl, hname⟩
    rw [enterStage, Draft.toList_begin, ← List.cons_append, List.mem_append,
      List.mem_singleton] at hl
    rcases hl with hl | rfl
    · exact ⟨l, hl, hname⟩
    · cases hcurrent : sc.stages.current? with
      | none =>
        rw [hcurrent] at hname
        cases hname
      | some current =>
        rw [hcurrent, Option.getD_some, inherited, List.map_map] at hname
        obtain ⟨b, hb, rfl⟩ := List.mem_map.mp hname
        rw [Draft.current?_eq_getLast?] at hcurrent
        exact ⟨current, List.mem_cons_of_mem _ (List.mem_of_getLast? hcurrent),
          List.mem_map.mpr ⟨b, List.mem_of_mem_filter hb, rfl⟩⟩
  · rintro ⟨l, hl, hname⟩
    refine ⟨l, ?_, hname⟩
    rw [enterStage, Draft.toList_begin, ← List.cons_append]
    exact List.mem_append_left _ hl

theorem binds_follow (sc : Scope) (e : Event) :
    (sc.follow e).Binds name ↔ sc.Binds name ∨ ∃ d, e = .declare d ∧ d.name = name := by
  have hdeclared : ∀ d : Declaration,
      (∃ d', Event.declare d = .declare d' ∧ d'.name = name) ↔ name = d.name := by
    simp [eq_comm]
  rcases e with ⟨⟨n, default, index⟩ | ⟨n, value, index⟩⟩ | _
  · rw [hdeclared]
    exact binds_bind sc _
  · rw [hdeclared]
    exact binds_bind sc _
  · rw [or_iff_left (by rintro ⟨d, hd, -⟩; cases hd)]
    exact binds_enterStage sc

/-- **A name is bound exactly if it was bound before or was declared.** -/
theorem binds_foldl_follow (sc : Scope) (h : List Event) :
    (h.foldl follow sc).Binds name ↔ sc.Binds name ∨ ∃ d, .declare d ∈ h ∧ d.name = name := by
  induction h generalizing sc with
  | nil => simp
  | cons e h ih =>
    rw [List.foldl_cons, ih, binds_follow, or_assoc]
    simp only [List.mem_cons, or_and_right, exists_or, eq_comm]

theorem escape_bind (sc : Scope) (b : Binding) : (sc.bind b).escape = sc.escape := by
  rw [bind]
  split <;> rfl

theorem escape_foldl_follow (sc : Scope) (h : List Event) :
    (h.foldl follow sc).escape = sc.escape := by
  induction h generalizing sc with
  | nil => rfl
  | cons e h ih =>
    rw [List.foldl_cons, ih]
    rcases e with ⟨⟨n, default, index⟩ | ⟨n, value, index⟩⟩ | _
    · exact escape_bind sc _
    · exact escape_bind sc _
    · rfl

end Scope

/-- The names of an instruction are those that its events declare. -/
theorem Instruction.declared_iff {i : Instruction} {index : Nat} {name : Text} :
    (∃ d, .declare d ∈ i.events index ∧ d.name = name) ↔ name ∈ i.names := by
  cases i with
  | fromImage | onbuild | maintainer => simp [events, names]
  | step st => cases st <;> simp [events, names, Declaration.name]

/-! ## Names of lines -/

/-- A logical line is an ENV whose first word is blank. -/
def LogicalLine.BlankFirst (escape : Char) (l : LogicalLine) : Prop :=
  ∃ s, Statement.ofLine l = .ok s ∧ s.keyword = .env ∧ Word.FirstBlank escape s.text

namespace Progress

variable {settings : Settings} {p q r : Progress} {t : Trace} {ts : List Trace} {name : Text}

theorem Handled.binds_iff (h : Handled settings p t q) :
    q.scope.Binds name ↔ p.scope.Binds name ∨ ∃ e ∈ t.entry, name ∈ e.instruction.names := by
  rw [h.scope.1, Scope.binds_foldl_follow, Trace.events]
  cases t.entry with
  | none => simp
  | some e => simp [Instruction.declared_iff]

/-- **After a passage those names are bound that were bound before or that its entries declare.** -/
theorem Passage.binds_iff (h : Passage settings p ts r) :
    r.scope.Binds name ↔
      p.scope.Binds name ∨ ∃ t ∈ ts, ∃ e ∈ t.entry, name ∈ e.instruction.names := by
  induction h with
  | nil p => simp
  | cons ht _ ih => rw [ih, ht.binds_iff, List.exists_mem_cons_iff, or_assoc]

theorem Handled.escape (h : Handled settings p t q) : q.scope.escape = p.scope.escape := by
  rw [h.scope.1]
  exact Scope.escape_foldl_follow _ _

/-- A line that is dealt with declares a blank name exactly if it is taken and is an ENV
whose first word is blank. -/
theorem Handled.blank_iff (h : Handled settings p t q) :
    (∃ e ∈ t.entry, [] ∈ e.instruction.names) ↔
      t.entry.isSome = true ∧ t.line.BlankFirst p.scope.escape := by
  have hline : ∀ l i, (Grammar.line l (p.context settings)).result = .ok i →
      ([] ∈ i.names ↔ l.BlankFirst p.scope.escape) := by
    intro l i hi
    obtain ⟨s, hs, hi⟩ := Grammar.ok_of_bind hi
    have hs : Statement.ofLine l = .ok s := hs
    rw [Grammar.nil_mem_names_iff hi]
    constructor
    · exact fun hblank => ⟨s, hs, hblank⟩
    · rintro ⟨s', hs', hblank⟩
      rw [hs] at hs'
      cases hs'
      exact hblank
  cases h with
  | taken hi hq => simpa using hline _ _ hi
  | renamed hs hi hname ha => simpa [Instruction.names] using hline _ _ hi
  | dropped hs hf => simp

theorem Passage.blank_iff (h : Passage settings p ts r) :
    (∃ t ∈ ts, ∃ e ∈ t.entry, [] ∈ e.instruction.names) ↔
      ∃ t ∈ ts, t.entry.isSome = true ∧ t.line.BlankFirst p.scope.escape := by
  induction h with
  | nil p => simp
  | cons ht _ ih =>
    rw [List.exists_mem_cons_iff, List.exists_mem_cons_iff, ht.blank_iff, ih, ht.escape]

end Progress

namespace Document

/-- **Where names are blank.**

1. ENV and LABEL have at least one pair, and one of their keys is blank exactly if their first word
   is.
2. ARG has at least one name, and none of them is blank.
3. At a place that a reading reaches after some lines, with failures recorded or not,
   some layer binds a blank name exactly if one of the lines was taken for an ENV and
   has a blank first word. -/
theorem blankName_iff (s : Statement) (cx : Context) (settings : Settings) (layout : Layout)
    (ls : List LogicalLine) :
    (∀ ps, (Grammar.instruction s cx).result = .ok (.step (.env ps)) ∨
        (Grammar.instruction s cx).result = .ok (.step (.label ps)) →
      ps ≠ [] ∧ ((∃ p ∈ ps, p.key = []) ↔ Word.FirstBlank cx.escape s.text)) ∧
    (∀ ds, (Grammar.instruction s cx).result = .ok (.step (.arg ds)) →
      ds ≠ [] ∧ ∀ d ∈ ds, d.name ≠ []) ∧
    ∀ p, (start layout).takeAll settings ls = (p, none) →
      ∃ ts, ts.map Trace.line = ls ∧ Progress.Passage settings (start layout) ts p ∧
        (p.scope.Binds [] ↔
          ∃ t ∈ ts, t.entry.isSome = true ∧ t.line.BlankFirst layout.preamble.escape) := by
  refine ⟨?_, fun ds h => Grammar.names_of_instruction h, ?_⟩
  · rintro ps (h | h)
    · have hf : Step.OfPairs s.keyword .env := (Grammar.takes_instruction _ h).1 ▸ .env
      exact Grammar.keys_of_instruction hf h
    · have hf : Step.OfPairs s.keyword .label := (Grammar.takes_instruction _ h).1 ▸ .label
      exact Grammar.keys_of_instruction hf h
  · intro p h
    obtain ⟨ts, hlines, hpassage⟩ := Progress.passage_of_takeAll h
    refine ⟨ts, hlines, hpassage, ?_⟩
    have hfresh : ¬ (start layout).scope.Binds [] := by simp [Scope.Binds, start]
    rw [hpassage.binds_iff, or_iff_right hfresh]
    exact hpassage.blank_iff

/-- A key that is nothing but quotes is read and bound; a name that is nothing but quotes keeps
them. -/
theorem blankName_iff_quotes :
    let layout := Layout.read true ["FROM scratch".toList, "ENV \"\" x".toList]
    let env := Statement.ofWords .env "\"\" x".toList (.single 2) []
    let arg := Statement.ofWords .arg "\"\"".toList (.single 2) []
    (Grammar.instruction env .bare).result =
        .ok (.step (.env [⟨[], "x".toList, .unquoted, false⟩])) ∧
      Word.FirstBlank '\\' env.text ∧
      (Grammar.instruction arg .bare).result =
        .ok (.step (.arg [⟨"\"\"".toList, none, .unquoted⟩])) ∧
      (∀ d ∈ [(⟨"\"\"".toList, none, .unquoted⟩ : ArgDecl)], d.name ≠ []) ∧
      ∃ p, (start layout).takeAll .tolerant layout.lines = (p, none) ∧ p.scope.Binds [] ∧
        ∃ l ∈ layout.lines, l.BlankFirst '\\' := by
  intro layout env arg
  obtain ⟨hpairs, -, hplaces⟩ := blankName_iff env .bare .tolerant layout layout.lines
  obtain ⟨-, hargs, -⟩ := blankName_iff arg .bare .tolerant layout layout.lines
  have henv : (Grammar.instruction env .bare).result =
      .ok (.step (.env [⟨[], "x".toList, .unquoted, false⟩])) := by decide +kernel
  have harg : (Grammar.instruction arg .bare).result =
      .ok (.step (.arg [⟨"\"\"".toList, none, .unquoted⟩])) := by decide +kernel
  have hblank : Word.FirstBlank '\\' env.text :=
    (hpairs _ (.inl henv)).2.mp ⟨_, List.mem_singleton_self _, rfl⟩
  have hrun : (start layout).takeAll .tolerant layout.lines =
      (((start layout).takeAll .tolerant layout.lines).1, none) :=
    Prod.ext rfl (by decide +kernel)
  have hbinds : ((start layout).takeAll .tolerant layout.lines).1.scope.Binds [] := by
    unfold Scope.Binds
    decide +kernel
  obtain ⟨ts, hlines, -, hiff⟩ := hplaces _ hrun
  obtain ⟨t, ht, -, hfirst⟩ := hiff.mp hbinds
  refine ⟨henv, hblank, harg, (hargs _ harg).2, _, hrun, hbinds, t.line, ?_, hfirst⟩
  rw [← hlines]
  exact List.mem_map_of_mem ht

end Document

end Containerfile
