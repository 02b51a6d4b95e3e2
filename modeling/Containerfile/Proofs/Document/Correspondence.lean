import Containerfile.Proofs.Document.WellFormed
import Containerfile.Proofs.Line.Accounting
import Containerfile.Proofs.Lint
import Mathlib.Data.List.Forall2
import Mathlib.Data.List.Nodup

/-! # Entries and logical lines

The entries of a document stand for logical lines of the file, in their order.  In a strict reading
they stand for all of them.  A reading that records failures may drop a line, which then has an
error of its own; a line has both an entry and an error only if it is a FROM whose name is taken or
whose base names its own or a later stage (`Excused`).

What is said of a line when it is dealt with (`Progress.Handled.accounted`,
`Progress.Handled.excused`) holds in the end, since stages stay as they were opened
(`Progress.Passage.heads`).  Lines are told apart by their spans, which lie one behind the other.

Main statement: `Document.lines_kept_of_readLines`. -/
namespace Containerfile

/-- What lies one behind the other is told apart by its lines. -/
theorem LineSpan.eq_of_behind {α : Type} {f : α → LineSpan} {l : List α} {a b : α}
    (h : l.Pairwise fun a b => (f a).last < (f b).first) (ha : a ∈ l) (hb : b ∈ l)
    (hab : f a = f b) : a = b := by
  have hnodup : (l.map f).Nodup := by
    rw [List.Nodup, List.pairwise_map]
    refine h.imp fun {c d} hcd heq => ?_
    have hordered := (f c).ordered
    rw [← heq] at hcd
    omega
  exact List.inj_on_of_nodup_map hnodup ha hb hab

/-- Whether an entry stands for a logical line: it has its lines, and the keyword of its first
word. -/
def Entry.StandsFor (e : Entry) (l : LogicalLine) : Prop :=
  e.lines = l.lines ∧ Keyword.read? (Text.firstWord l.text).1 = some e.keyword

/-- Why a logical line may both have become an entry and be in error, given the stages as they
are. -/
inductive Excused (stages : List Stage) (l : LogicalLine) (e : Entry) (x : Diagnostic) : Prop
  /-- The FROM on the line gives a name that an earlier stage has; it opened a stage without a
  name. -/
  | takenName {s t : Stage} {name : Text} {cx : Context} (hs : s ∈ stages) (ht : t ∈ stages)
      (he : e = s.openingEntry) (hnone : s.givenName = none)
      (hline : (Grammar.line l cx).result =
        .ok (.fromImage { s.opening with stageName := some name }))
      (hearlier : t.index < s.index) (hcalled : Aliases.isCalled name t.givenName = true)
      (hx : x = .ofFailure (.duplicateAlias name l.lines))
  /-- The base that the FROM on the line names was taken for an image, and is that or a later
  stage. -/
  | lateBase {s t : Stage} {image : ImageName} (hs : s ∈ stages) (ht : t ∈ stages)
      (he : e = s.openingEntry) (hbase : s.base = .external image) (hbare : image.isBare = true)
      (hlater : s.index ≤ t.index) (hcalled : Aliases.isCalled image.repository t.givenName = true)
      (hx : x = .ofFailure (.unknownStage image.repository l.lines))

/-- A line is excused by what stages are when they are opened. -/
theorem Excused.mono {a b : List Stage} {l : LogicalLine} {e : Entry} {x : Diagnostic}
    (h : Excused a l e x) (hab : ∀ s ∈ a, ∃ t ∈ b, t.head = s.head) : Excused b l e x := by
  cases h with
  | takenName hs ht he hnone hline hearlier hcalled hx =>
    obtain ⟨s', hs', hsame⟩ := hab _ hs
    obtain ⟨t', ht', hsame'⟩ := hab _ ht
    rw [Stage.eq_of_head hsame] at hs'
    rw [Stage.eq_of_head hsame'] at ht'
    exact takenName hs' ht' he hnone hline hearlier hcalled hx
  | lateBase hs ht he hbase hbare hlater hcalled hx =>
    obtain ⟨s', hs', hsame⟩ := hab _ hs
    obtain ⟨t', ht', hsame'⟩ := hab _ ht
    rw [Stage.eq_of_head hsame] at hs'
    rw [Stage.eq_of_head hsame'] at ht'
    exact lateBase hs' ht' he hbase hbare hlater hcalled hx

/-- The bindings at the end excuse nothing and accuse of nothing. -/
theorem Excused.finish {a : Assembly} {l : LogicalLine} {e : Entry} {x : Diagnostic}
    (h : Excused a.heads l e x) (scope : Scope) : Excused (a.finish scope) l e x := by
  refine h.mono fun s hs => ?_
  rw [← Assembly.map_head_finish a scope] at hs
  obtain ⟨t, ht, rfl⟩ := List.mem_map.mp hs
  exact ⟨t, ht, rfl⟩

/-- What is left of a logical line accounts for it. -/
structure Trace.Accounted (t : Trace) : Prop where
  stands : ∀ e, t.entry = some e → e.StandsFor t.line
  reported : t.entry = none → ∃ x ∈ t.found, x.isError = true ∧ x.lines = some t.line.lines
  blamed : ∀ x ∈ t.found, x.isError = true → x.lines = some t.line.lines

namespace Progress

variable {settings : Settings} {p q r : Progress} {index : Nat} {e : Entry} {l : LogicalLine}
  {t : Trace} {ts : List Trace} {x : Diagnostic}

/-! ## One line -/

/-- The errors among what is found on a line are those that come after its warnings. -/
theorem mem_errors {es : List Diagnostic} (hx : x ∈ p.warnings settings l ++ es)
    (herror : x.isError = true) : x ∈ es := by
  rcases List.mem_append.mp hx with hx | hx
  · rw [clean_warnings _ _ x hx] at herror
    cases herror
  · exact hx

theorem Handled.accounted (h : Handled settings p t q) : t.Accounted := by
  cases h with
  | @taken l i q hi hq =>
    refine ⟨?_, ?_, ?_⟩
    · intro e he
      obtain rfl := Option.some.inj he
      exact ⟨rfl, Grammar.keyword_line i hi⟩
    · intro hnone
      cases hnone
    · intro x hx herror
      rw [clean_warnings _ _ x hx] at herror
      cases herror
  | @renamed l base name a hs hi hname ha =>
    refine ⟨?_, ?_, ?_⟩
    · intro e he
      obtain rfl := Option.some.inj he
      exact ⟨rfl, Grammar.keyword_line (.fromImage base) hi⟩
    · intro hnone
      cases hnone
    · intro x hx herror
      obtain rfl := List.mem_singleton.mp (mem_errors hx herror)
      rfl
  | @dropped l f hs hf =>
    refine ⟨?_, ?_, ?_⟩
    · intro e he
      cases he
    · intro _
      exact ⟨.ofFailure f, List.mem_append_right _ (List.mem_singleton_self _), rfl, hf⟩
    · intro x hx herror
      obtain rfl := List.mem_singleton.mp (mem_errors hx herror)
      exact hf

/-- A line that becomes an entry in spite of an error is a FROM whose name is taken. -/
theorem Handled.excused (h : Handled settings p t q) (hp : p.WellFormed) (he : t.entry = some e)
    (hx : x ∈ t.found) (herror : x.isError = true) :
    Excused q.assembly.heads t.line e x := by
  cases h with
  | taken hi hq =>
    rw [clean_warnings _ _ x hx] at herror
    cases herror
  | @renamed l base name a hs hi hname ha =>
    obtain rfl := Option.some.inj he
    obtain rfl := List.mem_singleton.mp (mem_errors hx herror)
    obtain ⟨hstage, k, hk⟩ := Assembly.position_of_takenName?_eq_some hname
    obtain ⟨t, ht, htk, hcalled⟩ := hp.assembly.exists_called hk
    have hheads : (((p.past (p.warnings settings l ++
        [.ofFailure (.duplicateAlias name l.lines)])).opened a).assembly).heads =
          p.assembly.heads ++ [p.assembly.stageFor { base with stageName := none } l.lines] :=
      Assembly.heads_of_openStage ha
    have hline : (Grammar.line l (p.context settings)).result =
        .ok (.fromImage { base with stageName := some name }) := by
      rw [hi, ← hstage]
    have hearlier : t.index < p.assembly.stages.size := by
      rw [htk, ← Assembly.length_aliases]
      exact Aliases.lt_of_position hk
    rw [hheads]
    exact Excused.takenName
      (s := p.assembly.stageFor { base with stageName := none } l.lines)
      (List.mem_append_right _ (List.mem_singleton_self _))
      (List.mem_append_left _ (List.mem_of_getElem? ht)) rfl rfl hline hearlier hcalled rfl
  | dropped hs hf => cases he

/-! ## All lines -/

theorem Passage.excused (h : Passage settings p ts r) (hp : p.WellFormed) :
    ∀ t ∈ ts, ∀ e, t.entry = some e → ∀ x ∈ t.found, x.isError = true →
      Excused r.assembly.heads t.line e x := by
  induction h with
  | nil p => simp
  | cons ht hr ih =>
    refine List.forall_mem_cons.mpr ⟨?_, ih (ht.wellFormed hp)⟩
    intro e he x hx herror
    exact (ht.excused hp he hx herror).mono fun s hs => ⟨s, hr.heads.subset hs, rfl⟩

end Progress

/-! ## Traces of a file -/

namespace Trace

variable {ts : List Trace} {t u : Trace}

/-- Whether the lines of traces lie one behind the other. -/
def Ordered (ts : List Trace) : Prop :=
  ts.Pairwise fun t u => t.line.lines.last < u.line.lines.first

/-- The entries lie one behind the other as their lines do. -/
theorem pairwise_entries (h : Ordered ts) (hall : ∀ t ∈ ts, t.Accounted) :
    (ts.filterMap Trace.entry).Pairwise fun a b => a.lines.last < b.lines.first := by
  rw [List.pairwise_filterMap]
  refine h.imp_of_mem fun {t u} ht hu htu a ha b hb => ?_
  rw [((hall t ht).stands a ha).1, ((hall u hu).stands b hb).1]
  exact htu

/-- Where no line is dropped, entries and lines go together. -/
theorem forall₂_entries (hall : ∀ t ∈ ts, t.Accounted)
    (hsome : ∀ t ∈ ts, ∃ e, t.entry = some e) :
    List.Forall₂ Entry.StandsFor (ts.filterMap Trace.entry) (ts.map Trace.line) := by
  induction ts with
  | nil => exact List.Forall₂.nil
  | cons t ts ih =>
    rw [List.forall_mem_cons] at hall hsome
    obtain ⟨e, he⟩ := hsome.1
    rw [List.filterMap_cons, he]
    exact List.Forall₂.cons (hall.1.stands e he) (ih hall.2 hsome.2)

end Trace

namespace Document

variable {settings : Settings} {p : Progress} {ts : List Trace} {x : Diagnostic} {e : Entry}

/-- What is found on a line is in the document, and the errors of a document were found on
a line or at the end. -/
theorem mem_diagnostics {layout : Layout} (hclean : Progress.Clean layout.preamble.warnings)
    (h : Progress.Passage settings (start layout) ts p) (directives : Directives) :
    (∀ t ∈ ts, ∀ x ∈ t.found, x ∈ (p.final directives).diagnostics) ∧
      ∀ x ∈ (p.final directives).diagnostics, x.isError = true →
        (∃ t ∈ ts, x ∈ t.found) ∨ ∃ f ∈ p.assembly.lateFailures, x = .ofFailure f := by
  rw [Progress.diagnostics_final, h.diagnostics]
  refine ⟨?_, ?_⟩
  · intro t ht x hx
    refine List.mem_append_left _ (List.mem_append_left _ (List.mem_append_right _ ?_))
    exact List.mem_flatMap.mpr ⟨t, ht, hx⟩
  · intro x hx herror
    rw [List.mem_append, List.mem_append, List.mem_append] at hx
    rcases hx with ((hx | hx) | hx) | hx
    · rw [hclean x hx] at herror
      cases herror
    · exact Or.inl (List.mem_flatMap.mp hx)
    · obtain ⟨f, hf, rfl⟩ := List.mem_map.mp hx
      exact Or.inr ⟨f, hf, rfl⟩
    · rw [Lint.isError_of_mem_run hx] at herror
      cases herror

/-- The FROM that opens a stage is an entry. -/
theorem openingEntry_mem {s : Stage} (hs : s ∈ p.assembly.heads) : s.openingEntry ∈ p.entries := by
  obtain ⟨t, ht, rfl⟩ := List.mem_map.mp hs
  refine List.mem_append_right _ (List.mem_flatMap.mpr ⟨t, ht, ?_⟩)
  exact List.mem_cons_self

/-- A failure at the end about a line with an entry is about the base that the line names. -/
theorem excused_of_late {l : LogicalLine} {f : Failure} (hp : p.assembly.WellFormed)
    (hpairwise : p.entries.Pairwise fun a b => a.lines.last < b.lines.first) (he : e ∈ p.entries)
    (hf : f ∈ p.assembly.lateFailures) (hel : e.lines = l.lines) (hfl : f.lines = some l.lines) :
    Excused p.assembly.heads l e (.ofFailure f) := by
  obtain ⟨s, hs, t, ht, image, hbase, hbare, hlater, hcalled, rfl⟩ := hp.late hf
  have hlines : s.openingLines = l.lines := Option.some.inj hfl
  have hopening : e = s.openingEntry :=
    LineSpan.eq_of_behind hpairwise he (openingEntry_mem hs) (hel.trans hlines.symm)
  exact Excused.lateBase hs ht hopening hbase hbare hlater hcalled (by rw [hlines])

/-- **A line with an entry and an error is excused.**  The line of the entry and that of the error
are told apart by their spans. -/
theorem excused_of_both {layout : Layout} {directives : Directives}
    (hclean : Progress.Clean layout.preamble.warnings)
    (h : Progress.Passage settings (start layout) ts p) (hordered : Trace.Ordered ts)
    {t : Trace} (ht : t ∈ ts) (he : e ∈ p.entries) (hel : e.lines = t.line.lines)
    (hx : x ∈ (p.final directives).diagnostics)
    (herror : x.isError = true) (hxl : x.lines = some t.line.lines) :
    Excused p.assembly.heads t.line e x := by
  have hall : ∀ t ∈ ts, t.Accounted := h.forall_mem fun _ _ _ ht => ht.accounted
  have hentries : p.entries = ts.filterMap Trace.entry := h.entries
  rcases (mem_diagnostics hclean h directives).2 x hx herror with ⟨u, hu, hxu⟩ | ⟨f, hf, rfl⟩
  · rw [hentries] at he
    obtain ⟨v, hv, hev⟩ := List.mem_filterMap.mp he
    have hvt : v = t := LineSpan.eq_of_behind hordered hv ht
      (((hall v hv).stands e hev).1.symm.trans hel)
    have hut : u = t := LineSpan.eq_of_behind hordered hu ht
      (Option.some.inj (((hall u hu).blamed x hxu herror).symm.trans hxl))
    rw [hvt] at hev
    rw [hut] at hxu
    exact h.excused (wellFormed_start layout) t ht e hev x hxu herror
  · have hpairwise := Trace.pairwise_entries hordered hall
    rw [← hentries] at hpairwise
    exact excused_of_late (h.wellFormed (wellFormed_start layout)).assembly hpairwise he hf hel hxl

/-- **No logical line is lost or reordered.**

1. The entries lie one behind the other, and each stands for a logical line.
2. If no failures are recorded, the entries and all logical lines stand for each other in their
   order.
3. Every logical line has an entry or an error on exactly its lines, and both only with an
   excuse. -/
theorem lines_kept_of_readLines (settings : Settings) (texts : List Text) (d : Document)
    (h : readLines settings texts = .ok d) :
    let ls := (Layout.read settings.escapeDirective texts).lines
    (d.entries.Pairwise fun a b => a.lines.last < b.lines.first) ∧
      (∀ e ∈ d.entries, ∃ l ∈ ls, e.StandsFor l) ∧
      (settings.bestEffort = false → List.Forall₂ Entry.StandsFor d.entries ls) ∧
      ∀ l ∈ ls,
        ((∃ e ∈ d.entries, e.lines = l.lines) ∨
          ∃ x ∈ d.diagnostics, x.isError = true ∧ x.lines = some l.lines) ∧
        ∀ e ∈ d.entries, e.lines = l.lines → ∀ x ∈ d.diagnostics, x.isError = true →
          x.lines = some l.lines → Excused d.stages l e x := by
  obtain ⟨ts, p, hlines, hpassage, -, -, rfl⟩ := passage_of_readLines h
  have hbehind := (Layout.accounts_read settings.escapeDirective texts).1
  have hclean := (Layout.read_spec settings.escapeDirective texts).1
  generalize Layout.read settings.escapeDirective texts = layout at *
  have hall : ∀ t ∈ ts, t.Accounted := hpassage.forall_mem fun _ _ _ ht => ht.accounted
  have hordered : Trace.Ordered ts := by
    rw [← hlines] at hbehind
    exact List.pairwise_map.mp hbehind
  have hentries : p.entries = ts.filterMap Trace.entry := hpassage.entries
  dsimp only
  rw [Progress.entries_final, Progress.stages_final, hentries, ← hlines]
  refine ⟨Trace.pairwise_entries hordered hall, ?_, ?_, ?_⟩
  · intro e he
    obtain ⟨t, ht, hte⟩ := List.mem_filterMap.mp he
    exact ⟨t.line, List.mem_map_of_mem ht, (hall t ht).stands e hte⟩
  · intro hs
    exact Trace.forall₂_entries hall (hpassage.forall_mem fun _ _ _ ht => ht.strict hs)
  · intro l hl
    obtain ⟨t, ht, rfl⟩ := List.mem_map.mp hl
    refine ⟨?_, ?_⟩
    · rcases hentry : t.entry with _ | e
      · obtain ⟨x, hx, herror, hxl⟩ := (hall t ht).reported hentry
        exact Or.inr ⟨x, (mem_diagnostics hclean hpassage _).1 t ht x hx, herror, hxl⟩
      · exact Or.inl ⟨e, List.mem_filterMap.mpr ⟨t, ht, hentry⟩, ((hall t ht).stands e hentry).1⟩
    · intro e he hel x hx herror hxl
      rw [← hentries] at he
      exact (excused_of_both hclean hpassage hordered ht he hel hx herror hxl).finish p.scope

/-- An instruction on two lines, read strictly; and a FROM whose name is taken and whose base is a
later stage, after a line that is dropped. -/
theorem lines_kept_of_readLines_taken :
    (∃ d, readLines {} ["ARG V=1".toList, "FROM scratch".toList, "ENV A=$V \\".toList,
        "  B=2".toList] = .ok d ∧ d.entries.length = 3 ∧
      List.Forall₂ Entry.StandsFor d.entries (Layout.read true ["ARG V=1".toList,
        "FROM scratch".toList, "ENV A=$V \\".toList, "  B=2".toList]).lines) ∧
    ∃ d, readLines .tolerant ["FROM scratch AS a".toList, "NOPE".toList, "FROM b AS A".toList,
        "FROM scratch AS b".toList] = .ok d ∧
      ∃ l ∈ (Layout.read true ["FROM scratch AS a".toList, "NOPE".toList, "FROM b AS A".toList,
        "FROM scratch AS b".toList]).lines,
      ∃ e ∈ d.entries, e.lines = l.lines ∧ ∃ x ∈ d.diagnostics, x.isError = true ∧
        x.lines = some l.lines ∧ Excused d.stages l e x := by
  refine ⟨?_, ?_⟩
  · obtain ⟨d, hd, hlength⟩ := ok_of_map (x := readLines {} ["ARG V=1".toList,
      "FROM scratch".toList, "ENV A=$V \\".toList, "  B=2".toList])
      (f := fun d => d.entries.length) (b := 3) (by decide +kernel)
    exact ⟨d, hd, hlength, (lines_kept_of_readLines _ _ d hd).2.2.1 rfl⟩
  · obtain ⟨d, hd, hfound⟩ := ok_of_map (x := readLines .tolerant ["FROM scratch AS a".toList,
      "NOPE".toList, "FROM b AS A".toList, "FROM scratch AS b".toList])
      (f := fun d => (d.entries.map Entry.lines,
        d.diagnostics.map fun x => (x.isError, x.lines)))
      (b := ([.single 1, .single 3, .single 4], [(true, some (.single 2)),
        (true, some (.single 3)), (true, some (.single 3))])) (by decide +kernel)
    obtain ⟨hentries, hdiagnostics⟩ := Prod.mk.inj hfound
    have hentry : LineSpan.single 3 ∈ d.entries.map Entry.lines := by
      rw [hentries]
      simp
    have herrors : (true, some (LineSpan.single 3)) ∈
        d.diagnostics.map fun x => (x.isError, x.lines) := by
      rw [hdiagnostics]
      simp
    obtain ⟨l, hl, hspan⟩ : ∃ l ∈ (Layout.read true ["FROM scratch AS a".toList, "NOPE".toList,
        "FROM b AS A".toList, "FROM scratch AS b".toList]).lines, l.lines = .single 3 := by
      decide +kernel
    obtain ⟨e, he, hel⟩ := List.mem_map.mp hentry
    obtain ⟨x, hx, hpair⟩ := List.mem_map.mp herrors
    obtain ⟨herror, hxl⟩ := Prod.mk.inj hpair
    have hel : e.lines = l.lines := hel.trans hspan.symm
    have hxl : x.lines = some l.lines := by rw [hxl, hspan]
    exact ⟨d, hd, l, hl, e, he, hel, x, hx, herror, hxl,
      ((lines_kept_of_readLines _ _ d hd).2.2.2 l hl).2 e he hel x hx herror hxl⟩

end Document

end Containerfile
