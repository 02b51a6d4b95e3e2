import Containerfile.Proofs.Document.Correspondence
import Containerfile.Proofs.Document.Replay
import Containerfile.Proofs.Scope.History

/-! # Bindings are a replay of the document

The bindings of a document are what its instructions come to in a fresh scope, one after the other.
A FROM opens a stage, an ARG and an ENV declare their names, and nothing else declares anything, not
even an ARG or ENV that an ONBUILD puts off (`Instruction.events`).  The index of a declaration is
the place of its logical line among all logical lines of the file, lines that are dropped included.

A line that is dealt with makes the events of the entry that it became, if it became one
(`Progress.Handled.scope`), so a passage makes those of its traces
(`Progress.Passage.scope`).  A trace stands where its line does; an entry of the document
finds its line again by its span (`Trace.events_eq`).

Main statement: `Document.bindings_of_readLines`. -/
namespace Containerfile

/-! ## Events of instructions -/

/-- What an instruction does to a scope, if it stands at an index. -/
def Instruction.events (index : Nat) : Instruction → List Event
  | .fromImage _ => [.stage]
  | .step (.arg args) => args.map fun a => .declare (.arg a.name a.default index)
  | .step (.env vars) => vars.map fun v => .declare (.env v.key v.value index)
  | _ => []

/-- The place of an entry among logical lines. -/
def Entry.indexAmong (ls : List LogicalLine) (e : Entry) : Nat :=
  ls.findIdx fun l => l.lines == e.lines

/-- What the instructions of a document do to a scope, in the order of the document. -/
def Document.history (d : Document) (ls : List LogicalLine) : List Event :=
  d.entries.flatMap fun e => e.instruction.events (e.indexAmong ls)

/-- What an instruction declares is what its events declare. -/
theorem Progress.declare_eq_foldl (sc : Scope) (index : Nat) {i : Instruction}
    (hi : ∀ base, i ≠ .fromImage base) :
    declare sc index i = (i.events index).foldl Scope.follow sc := by
  cases i with
  | fromImage base => exact absurd rfl (hi base)
  | onbuild trigger => rfl
  | maintainer text => rfl
  | step s =>
    cases s with
    | arg args =>
      rw [declare, Instruction.events, List.foldl_map]
      rfl
    | env vars =>
      rw [declare, Instruction.events, List.foldl_map]
      rfl
    | _ => rfl

namespace Scope

variable (sc : Scope) (c : Char)

theorem follow_withEscape (e : Event) :
    (sc.withEscape c).follow e = (sc.follow e).withEscape c := by
  rcases e with ⟨⟨name, default, index⟩ | ⟨name, value, index⟩⟩ | _
  · exact declareArg_withEscape sc c name default index
  · exact declareEnv_withEscape sc c name value index
  · rfl

/-- What names are bound to does not depend on the escape character. -/
theorem after_withEscape (escape : Char) (h : List Event) :
    after c h = (after escape h).withEscape c := by
  induction h using List.reverseRecOn with
  | nil => rfl
  | append_singleton h e ih => rw [after_snoc, after_snoc, ih, follow_withEscape]

end Scope

/-! ## Events of traces -/

namespace Trace

/-- What a trace that stands at an index does to a scope. -/
def events (index : Nat) (t : Trace) : List Event :=
  t.entry.toList.flatMap fun e => e.instruction.events index

variable {t : Trace} {ts : List Trace}

/-- Of lines that lie one behind the other an entry finds its own. -/
theorem indexAmong_eq (h : Ordered ts) {k : Nat} (ht : ts[k]? = some t) {e : Entry}
    (he : e.lines = t.line.lines) : e.indexAmong (ts.map Trace.line) = k := by
  obtain ⟨hk, rfl⟩ := List.getElem?_eq_some_iff.mp ht
  have hlength : k < (ts.map Trace.line).length := by rwa [List.length_map]
  rw [Entry.indexAmong, List.findIdx_eq hlength]
  refine ⟨by simp [he], fun j hj => ?_⟩
  rw [List.getElem_map, he, beq_eq_false_iff_ne]
  intro hsame
  -- an earlier line ends before this one begins
  have hbehind := List.pairwise_iff_getElem.mp h j k (by omega) hk hj
  have hordered := (ts[k]).line.lines.ordered
  rw [hsame] at hbehind
  omega

/-- **The events of traces are those of their entries**, which stand where their lines do. -/
theorem events_eq (h : Ordered ts) (hall : ∀ t ∈ ts, t.Accounted) :
    ((ts.zipIdx).flatMap fun x => x.1.events x.2) =
      (ts.filterMap Trace.entry).flatMap fun e =>
        e.instruction.events (e.indexAmong (ts.map Trace.line)) := by
  have hcollect : ∀ f : Entry → List Event, (ts.filterMap Trace.entry).flatMap f =
      (ts.zipIdx).flatMap fun x => x.1.entry.toList.flatMap f := by
    intro f
    conv_lhs => rw [← List.zipIdx_map_fst 0 ts]
    rw [List.filterMap_map, List.filterMap_eq_flatMap_toList, List.flatMap_assoc]
    rfl
  rw [hcollect]
  refine List.flatMap_congr fun x hx => List.flatMap_congr fun e he => ?_
  have hget : ts[x.2]? = some x.1 := List.mem_zipIdx_iff_getElem?.mp hx
  have hstands := (hall x.1 (List.mem_of_getElem? hget)).stands e (Option.mem_toList.mp he)
  rw [indexAmong_eq h hget hstands.1]

end Trace

namespace Progress

variable {settings : Settings} {p q r : Progress} {index : Nat} {e : Entry} {t : Trace}
  {ts : List Trace}

/-- An instruction that is taken makes its events. -/
theorem Placed.scope (h : Placed p index e q) :
    q.scope = (e.instruction.events index).foldl Scope.follow p.scope := by
  cases h with
  | opens hi ha =>
    rw [hi]
    rfl
  | declares hi hs hk => exact declare_eq_foldl _ _ hi
  | joins hi ha => exact declare_eq_foldl _ _ hi

/-- **A line that is dealt with is counted and makes the events of its entry.** -/
theorem Handled.scope (h : Handled settings p t q) :
    q.scope = (t.events p.count).foldl Scope.follow p.scope ∧ q.count = p.count + 1 := by
  refine ⟨?_, h.count⟩
  rcases h.landed with ⟨hnone, rfl⟩ | ⟨e, hsome, -, hq⟩
  · rw [Trace.events, hnone]
    rfl
  · rw [Trace.events, hsome, hq.scope]
    simp [past, report]

/-- **A passage makes the events of its lines**, each at the place of its line. -/
theorem Passage.scope (h : Passage settings p ts r) :
    r.scope = ((ts.zipIdx p.count).flatMap fun x => x.1.events x.2).foldl Scope.follow p.scope := by
  induction h with
  | nil p => rfl
  | cons ht _ ih =>
    obtain ⟨hscope, hcount⟩ := ht.scope
    rw [ih, hscope, hcount, List.zipIdx_cons, List.flatMap_cons, List.foldl_append]

/-- The stages end with the layers of the scope. -/
theorem WellFormed.map_bindings (h : p.WellFormed) :
    (p.assembly.finish p.scope).map Stage.bindings = p.scope.stages.toList := by
  refine List.ext_getElem? fun k => ?_
  rw [Assembly.finish, List.getElem?_map, List.getElem?_map]
  have hsize : p.scope.stages.toList.length = p.assembly.stages.toList.length := h.inStep
  rcases hs : p.assembly.stages.toList[k]? with _ | s
  · rw [List.getElem?_eq_none_iff] at hs
    exact (List.getElem?_eq_none (by omega)).symm
  · have hindex := h.assembly.indexed k s hs
    obtain ⟨hk, -⟩ := List.getElem?_eq_some_iff.mp hs
    have hlayer : k < p.scope.stages.toList.length := by omega
    simp [Scope.bindingsOf, hindex, List.getElem?_eq_getElem hlayer]

end Progress

namespace Document

/-- **The bindings of a document are a replay of its instructions**, with failures recorded or not.

1. Every instruction stands for the logical line at its index.
2. In a fresh scope the instructions declare the bindings before the first stage and those of each
   stage. -/
theorem bindings_of_readLines (settings : Settings) (texts : List Text) (d : Document)
    (h : readLines settings texts = .ok d) :
    let ls := (Layout.read settings.escapeDirective texts).lines
    (∀ e ∈ d.entries, ∃ l, ls[e.indexAmong ls]? = some l ∧ e.StandsFor l) ∧
      ∀ escape,
        d.globalArgs = (Scope.after escape (d.history ls)).global ∧
          d.stages.map Stage.bindings = (Scope.after escape (d.history ls)).stages.toList := by
  obtain ⟨ts, p, hlines, hpassage, -, -, rfl⟩ := passage_of_readLines h
  have hbehind := (Layout.accounts_read settings.escapeDirective texts).1
  generalize Layout.read settings.escapeDirective texts = layout at *
  have hall : ∀ t ∈ ts, t.Accounted := hpassage.forall_mem fun _ _ _ ht => ht.accounted
  have hordered : Trace.Ordered ts := by
    rw [← hlines] at hbehind
    exact List.pairwise_map.mp hbehind
  have hentries : p.entries = ts.filterMap Trace.entry := hpassage.entries
  dsimp only
  rw [history, Progress.entries_final, Progress.stages_final, hentries, ← hlines]
  refine ⟨?_, fun escape => ?_⟩
  · intro e he
    obtain ⟨t, ht, hte⟩ := List.mem_filterMap.mp he
    obtain ⟨k, hk⟩ := List.mem_iff_getElem?.mp ht
    have hstands := (hall t ht).stands e hte
    rw [Trace.indexAmong_eq hordered hk hstands.1, List.getElem?_map, hk]
    exact ⟨t.line, rfl, hstands⟩
  · rw [← Trace.events_eq hordered hall]
    have hscope : p.scope = Scope.after layout.preamble.escape
        ((ts.zipIdx).flatMap fun x => x.1.events x.2) := hpassage.scope
    rw [Scope.after_withEscape escape layout.preamble.escape, ← hscope,
      (hpassage.wellFormed (wellFormed_start layout)).map_bindings]
    exact ⟨rfl, rfl⟩

/-- A line that is dropped is counted, an ENV is taken over by the next stage, and an ARG that is
put off declares nothing. -/
theorem bindings_of_readLines_dropped :
    let texts := ["ARG V=1".toList, "FROM scratch AS a".toList, "NOPE".toList, "ENV E=2".toList,
      "FROM a".toList, "ONBUILD ARG X=3".toList, "ARG V".toList]
    let h : List Event := [.declare (.arg "V".toList (some "1".toList) 0), .stage,
      .declare (.env "E".toList "2".toList 3), .stage, .declare (.arg "V".toList none 6)]
    ∃ d, readLines .tolerant texts = .ok d ∧ d.history (Layout.read true texts).lines = h ∧
      d.globalArgs = (Scope.after '\\' h).global ∧
      d.stages.map Stage.bindings = (Scope.after '\\' h).stages.toList := by
  intro texts h
  obtain ⟨d, hd, hhistory⟩ := ok_of_map (x := readLines .tolerant texts)
    (f := fun d => d.history (Layout.read true texts).lines) (b := h) (by decide +kernel)
  have hreplay := (bindings_of_readLines .tolerant texts d hd).2 '\\'
  have hhistory : d.history (Layout.read true texts).lines = h := hhistory
  have hescape : Settings.tolerant.escapeDirective = true := rfl
  rw [hescape, hhistory] at hreplay
  exact ⟨d, hd, hhistory, hreplay⟩

end Document

end Containerfile
