import Containerfile.Proofs.Grammar.PrintedNames
import Containerfile.Proofs.Grammar.PrintedRest
import Containerfile.Proofs.Statement

/-! # Pairs and declarations printed and read again

What ENV, LABEL and ARG say is printed so that it can be read again in every scope, up to the way of
quoting.  Values behind an equals sign always are.  There are three kinds of exceptions: keys whose
equals signs are printed outside quotes; values at the end of a line that are not what is left of
the line when it is trimmed and cut at its first blank; and names of ARG that were written with
another escape character or end in a blank.

Main statement: `Step.roundTrips_iff_legible`. -/
namespace Containerfile

/-! ## Legible steps -/

/-- A pair that is read back where it is printed. -/
def KeyValue.Legible (p : KeyValue) : Prop := if p.hasEquals then HidesEquals p.key else p.Stands

/-- A step that is read back where it is printed. -/
def Step.Legible : Step → Prop
  | env pairs | label pairs => ∀ p ∈ pairs, p.Legible
  | arg decls => ArgDecl.Legible decls
  | _ => True

/-! ## Round trips -/

/-- A pair up to the way of quoting. -/
def KeyValue.forgetQuoting (p : KeyValue) : KeyValue := { p with quoting := .unquoted }

/-- A declaration up to the way of quoting. -/
def ArgDecl.forgetQuoting (d : ArgDecl) : ArgDecl := { d with quoting := .unquoted }

/-- A step up to the way of quoting of its pairs and declarations. -/
def Step.forgetQuoting : Step → Step
  | env pairs => env (pairs.map KeyValue.forgetQuoting)
  | label pairs => label (pairs.map KeyValue.forgetQuoting)
  | arg decls => arg (decls.map ArgDecl.forgetQuoting)
  | st => st

/-- A step whose text is read as the step itself, up to the way of quoting, whatever variables there
are. -/
def Step.RoundTrips (st : Step) : Prop :=
  ∀ (lines : LineSpan) (heredocs : List Heredoc) (cx : Context), cx.Canonical →
    ∃ s st', Statement.read st.render lines heredocs = .ok s ∧
      (Grammar.instruction s cx).result = .ok (.step st') ∧ st'.forgetQuoting = st.forgetQuoting

variable {s : Statement} {cx : Context} {st : Step} {ps ps' : List KeyValue} {ds : List ArgDecl}

/-! ## The printed statement -/

theorem spaced_cons (part : Text) (parts : List Text) :
    spaced (part :: parts) = ' ' :: Text.join [' '] (part :: parts) := by
  induction parts generalizing part with
  | nil => simp [spaced, Text.join]
  | cons next parts ih =>
    rw [spaced, List.flatMap_cons, ← spaced, ih, Text.join_cons_cons]
    simp

theorem Step.read_render (hf : st.keyword.acceptsFlags = false)
    (he : st.keyword.acceptsExecForm = false)
    (hne : st.argTexts ≠ []) (lines : LineSpan) (heredocs : List Heredoc) :
    Statement.read st.render lines heredocs =
      .ok (.ofWords st.keyword (Text.trim (Text.join [' '] st.argTexts)) lines heredocs) := by
  obtain ⟨part, parts, hparts⟩ := List.exists_cons_of_ne_nil hne
  have hrender : st.render = st.keyword.text ++ spaced st.argTexts := by
    cases st <;> simp_all [Step.keyword, Step.render, Step.flagTexts, Step.heredocs, heredocsText,
      Keyword.acceptsFlags]
  rw [hrender, hparts, spaced_cons]
  exact Statement.read_of_trim (fun h => absurd h (by simp [hf])) fun h => absurd h (by simp [he])

/-! ## Reading what was printed -/

namespace Grammar

theorem instruction_pairs_eq_ok_iff {f : List KeyValue → Step} (hf : Step.OfPairs s.keyword f) :
    (instruction s cx).result = .ok (.step st) ↔
      ∃ ps, st = f ps ∧ (pairs s cx).result = .ok ps := by
  rw [instruction_of_pairs hf]
  cases (pairs s cx).result <;> simp [Except.map, eq_comm]

theorem instruction_arg_eq_ok_iff (hs : s.keyword = .arg) :
    (instruction s cx).result = .ok (.step st) ↔
      ∃ ds, st = .arg ds ∧ (arg s cx).result = .ok (.arg ds) := by
  have hread : instruction s = .step <$> arg s := by
    rw [instruction_eq_step (by rw [hs]; decide), step, hs]
  rw [hread, map_run]
  constructor
  · intro h
    cases harg : (arg s cx).result with
    | error e =>
      rw [harg] at h
      cases h
    | ok st' =>
      rw [harg] at h
      cases h
      obtain ⟨-, ds, rfl, -⟩ := arg_eq_ok_iff.mp harg
      exact ⟨ds, rfl, rfl⟩
  · rintro ⟨ds, rfl, harg⟩
    rw [harg]
    rfl

/-- **Printed pairs are read back up to the way of quoting** in every context if they are legible,
and only then in the context without variables. -/
theorem pairs_again (hps : KeyValue.Formed ps)
    (hs : s.text = Text.trim (Text.join [' '] (ps.map KeyValue.render))) :
    ((∀ p ∈ ps, p.Legible) → ∀ cx : Context, cx.Canonical →
        ∃ ps', (pairs s cx).result = .ok ps' ∧
          ps'.map KeyValue.forgetQuoting = ps.map KeyValue.forgetQuoting) ∧
      (∀ ps', (pairs s .bare).result = .ok ps' →
        ps'.map KeyValue.forgetQuoting = ps.map KeyValue.forgetQuoting → ∀ p ∈ ps, p.Legible) := by
  rcases hps with ⟨p, rfl, hp⟩ | ⟨hne, hps⟩
  · rw [List.map_singleton, Text.join, List.intercalate_singleton] at hs
    rw [List.forall_mem_singleton, KeyValue.Legible, hp, if_neg Bool.false_ne_true]
    constructor
    · intro hstands cx hcx
      obtain ⟨q, hq⟩ := pairs_of_stands hp hs hcx hstands
      exact ⟨_, hq, rfl⟩
    · intro ps' h heq
      obtain ⟨p', rfl, hp'⟩ := List.map_eq_singleton_iff.mp heq
      obtain ⟨hkey, hvalue, -, hequals⟩ := KeyValue.mk.inj hp'
      exact stands_of_pairs hp hs h hkey hvalue (hequals.trans hp)
  · have hlegible : (∀ p ∈ ps, p.Legible) ↔ ∀ p ∈ ps, HidesEquals p.key :=
      forall₂_congr fun p hp => by rw [KeyValue.Legible, if_pos (hps p hp).1]
    have htrimmed : Text.Trimmed (Text.join [' '] (ps.map KeyValue.render)) := by
      refine Word.trimmed_join fun w hw => ?_
      obtain ⟨p, hp, rfl⟩ := List.mem_map.mp hw
      exact ⟨(KeyValue.whole_render (hps p hp).1).ne_nil, KeyValue.trimmed_render (hps p hp).1⟩
    rw [Text.trim_eq_self htrimmed] at hs
    obtain ⟨hread, honly⟩ := pairs_render hne hps hs
    rw [hlegible]
    refine ⟨fun hkeys cx hcx => ⟨_, hread hkeys cx hcx, ?_⟩, fun ps' h heq => honly ps' h ?_⟩
    · rw [List.map_map]
      rfl
    · have hkeys := congrArg (List.map KeyValue.key) heq
      rw [List.map_map, List.map_map] at hkeys
      exact hkeys

/-- **Printed declarations are read back up to the way of quoting**, under the same conditions. -/
theorem arg_again (hne : ds ≠ []) (hds : ∀ d ∈ ds, d.Formed)
    (hs : s.text = Text.trim (Text.join [' '] (ds.map ArgDecl.render))) :
    (ArgDecl.Legible ds → ∀ cx : Context, cx.Canonical →
        ∃ ds', (arg s cx).result = .ok (.arg ds') ∧
          ds'.map ArgDecl.forgetQuoting = ds.map ArgDecl.forgetQuoting) ∧
      (∀ ds', (arg s .bare).result = .ok (.arg ds') →
        ds'.map ArgDecl.forgetQuoting = ds.map ArgDecl.forgetQuoting → ArgDecl.Legible ds) := by
  obtain ⟨hread, honly⟩ := arg_render hne hds hs
  refine ⟨fun hlegible cx hcx => ⟨_, hread hlegible cx hcx, ?_⟩, fun ds' h heq => honly ds' h ?_⟩
  · rw [List.map_map]
    rfl
  · have hheads := congrArg (List.map ArgDecl.head) heq
    rw [List.map_map, List.map_map] at hheads
    exact hheads

end Grammar

/-! ## The law -/

namespace Step

variable {k : Keyword} {f : List KeyValue → Step}

theorem OfPairs.mem_keywords (hf : OfPairs k f) : k ∈ [.env, .label, .arg] := by
  cases hf <;> decide

theorem OfPairs.argTexts_eq (hf : OfPairs k f) (ps : List KeyValue) :
    (f ps).argTexts = ps.map KeyValue.render := by
  cases hf <;> rfl

theorem OfPairs.forgetQuoting_eq_iff (hf : OfPairs k f) :
    (f ps').forgetQuoting = (f ps).forgetQuoting ↔
      ps'.map KeyValue.forgetQuoting = ps.map KeyValue.forgetQuoting := by
  cases hf <;> simp [forgetQuoting]

theorem OfPairs.legible_iff (hf : OfPairs k f) : (f ps).Legible ↔ ∀ p ∈ ps, p.Legible := by
  cases hf <;> rfl

/-- A step round-trips if its printed statement is read back in every context, and only if it is in
the context without variables. -/
theorem roundTrips_iff_of_again {legible : Prop} (hk : st.keyword ∈ [.env, .label, .arg])
    (hne : st.argTexts ≠ [])
    (hagain : ∀ s : Statement, s.keyword = st.keyword →
      s.text = Text.trim (Text.join [' '] st.argTexts) →
        (legible → ∀ cx : Context, cx.Canonical → ∃ st', (Grammar.instruction s cx).result =
          .ok (.step st') ∧ st'.forgetQuoting = st.forgetQuoting) ∧
        ∀ st', (Grammar.instruction s .bare).result = .ok (.step st') →
          st'.forgetQuoting = st.forgetQuoting → legible) :
    st.RoundTrips ↔ legible := by
  have hplain : st.keyword.acceptsFlags = false ∧ st.keyword.acceptsExecForm = false := by
    revert hk
    cases st.keyword <;> decide
  have hread := read_render hplain.1 hplain.2 hne
  constructor
  · intro hround
    obtain ⟨s, st', hs, hst', hforget⟩ := hround (.single 1) [] .bare Context.canonical_bare
    cases (hread _ _).symm.trans hs
    exact (hagain _ rfl Statement.text_ofWords).2 st' hst' hforget
  · intro hlegible lines heredocs cx hcx
    obtain ⟨st', hst', hforget⟩ := (hagain _ rfl Statement.text_ofWords).1 hlegible cx hcx
    exact ⟨_, st', hread lines heredocs, hst', hforget⟩

theorem OfPairs.roundTrips_iff_forall (hf : OfPairs k f) (hps : KeyValue.Formed ps) :
    (f ps).RoundTrips ↔ ∀ p ∈ ps, p.Legible := by
  have hk : (f ps).keyword ∈ [.env, .label, .arg] := by simpa [hf.keyword_eq] using hf.mem_keywords
  have hne : (f ps).argTexts ≠ [] := by simpa [hf.argTexts_eq] using hps.ne_nil
  refine roundTrips_iff_of_again hk hne fun s hs htext => ?_
  rw [hf.keyword_eq] at hs
  rw [hf.argTexts_eq] at htext
  obtain ⟨hread, honly⟩ := Grammar.pairs_again hps htext
  constructor
  · intro hlegible cx hcx
    obtain ⟨ps', hps', heq⟩ := hread hlegible cx hcx
    exact ⟨f ps', (Grammar.instruction_pairs_eq_ok_iff (hs ▸ hf)).mpr ⟨ps', rfl, hps'⟩,
      hf.forgetQuoting_eq_iff.mpr heq⟩
  · intro st' hst' hforget
    obtain ⟨ps', rfl, hps'⟩ := (Grammar.instruction_pairs_eq_ok_iff (hs ▸ hf)).mp hst'
    exact honly ps' hps' (hf.forgetQuoting_eq_iff.mp hforget)

theorem arg_roundTrips_iff (hne : ds ≠ []) (hds : ∀ d ∈ ds, d.Formed) :
    (arg ds).RoundTrips ↔ ArgDecl.Legible ds := by
  have hparts : (arg ds).argTexts ≠ [] := by simpa [argTexts] using hne
  refine roundTrips_iff_of_again (by simp [keyword]) hparts fun s hs htext => ?_
  obtain ⟨hread, honly⟩ := Grammar.arg_again hne hds htext
  constructor
  · intro hlegible cx hcx
    obtain ⟨ds', hds', heq⟩ := hread hlegible cx hcx
    exact ⟨arg ds', (Grammar.instruction_arg_eq_ok_iff hs).mpr ⟨ds', rfl, hds'⟩,
      congrArg Step.arg heq⟩
  · intro st' hst' hforget
    obtain ⟨ds', rfl, hds'⟩ := (Grammar.instruction_arg_eq_ok_iff hs).mp hst'
    exact honly ds' hds' (Step.arg.inj hforget)

/-- **Printing and reading again.**  What ENV, LABEL and ARG are read as, whatever they
are read from, is printed as text that is read as the same keys or names with the same
values, in every context with the printed escape character and whatever variables it has,
exactly if it is legible. -/
theorem roundTrips_iff_legible (hk : s.keyword ∈ [.env, .label, .arg])
    (h : (Grammar.instruction s cx).result = .ok (.step st)) : st.RoundTrips ↔ st.Legible := by
  have hcases : (s.keyword = .env ∨ s.keyword = .label) ∨ s.keyword = .arg := by
    simpa [or_assoc] using hk
  rcases hcases with hpairs | harg
  · obtain ⟨f, hf⟩ := OfPairs.exists_of_keyword hpairs
    obtain ⟨ps, rfl, hps⟩ := (Grammar.instruction_pairs_eq_ok_iff hf).mp h
    rw [hf.legible_iff]
    exact hf.roundTrips_iff_forall (Grammar.formed_of_pairs hps)
  · obtain ⟨ds, rfl, hds⟩ := (Grammar.instruction_arg_eq_ok_iff harg).mp h
    obtain ⟨hne, hformed⟩ := Grammar.formed_of_arg hds
    exact arg_roundTrips_iff hne hformed

/-- A key with an equals sign is printed without the quotes that it was written in; a value keeps
them. -/
theorem roundTrips_iff_legible_equalsKey :
    (Grammar.instruction (.ofWords .env "\"A=B\"=c".toList (.single 2) []) .bare).result =
        .ok (.step (.env [⟨"A=B".toList, "c".toList, .unquoted, true⟩])) ∧
      (env [⟨"A=B".toList, "c".toList, .unquoted, true⟩]).render = "ENV A=B=c".toList ∧
      ¬ (env [⟨"A=B".toList, "c".toList, .unquoted, true⟩]).RoundTrips ∧
      (Grammar.instruction (.ofWords .env "A=\"B=c d\"".toList (.single 2) []) .bare).result =
        .ok (.step (.env [⟨"A".toList, "B=c d".toList, .double, true⟩])) ∧
      (env [⟨"A".toList, "B=c d".toList, .double, true⟩]).RoundTrips := by
  have hkey : (Grammar.instruction (.ofWords .env "\"A=B\"=c".toList (.single 2) []) .bare).result =
      .ok (.step (.env [⟨"A=B".toList, "c".toList, .unquoted, true⟩])) := by
    decide +kernel
  have hvalue :
    (Grammar.instruction (.ofWords .env "A=\"B=c d\"".toList (.single 2) []) .bare).result =
      .ok (.step (.env [⟨"A".toList, "B=c d".toList, .double, true⟩])) := by
    decide +kernel
  refine ⟨hkey, by decide +kernel, ?_, hvalue, ?_⟩
  · rw [roundTrips_iff_legible (by decide) hkey, Legible, List.forall_mem_singleton]
    exact fun hhides => absurd (hhides (by decide)) (by decide)
  · rw [roundTrips_iff_legible (by decide) hvalue, Legible, List.forall_mem_singleton]
    exact fun hmem => absurd hmem (by decide)

end Step

end Containerfile
