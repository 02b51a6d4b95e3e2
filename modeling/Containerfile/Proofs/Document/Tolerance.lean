import Containerfile.Proofs.Document.Progress
import Mathlib.Data.List.Infix

/-! # Tolerant readings refine strict ones

A strict and a tolerant reading of the same lines go in lock step up to the first failure.  From
there on they differ only if the failure is recoverable; the tolerant reading has then recorded it
right after everything that the strict one had found, and goes on.

`Progress.Refines` says this of two places reached.  One line keeps it (`Progress.advance_refines`),
so all lines do (`Progress.takeAll_refines`), and so do the failures that show only at the end
(`Progress.recoverAll_refines`).  What a tolerant reading records afterwards comes later
(`Progress.takeAll_grows`), and no failure that ends it could have been recorded
(`Progress.takeAll_stops`).

Main statement: `Document.tolerant_refines_strict`. -/
namespace Containerfile

/-- The same settings with failures recorded or not. -/
def Settings.recording (settings : Settings) (b : Bool) : Settings :=
  { settings with bestEffort := b }

namespace Progress

variable {settings : Settings} {p q : Progress} {f : Failure}

/-! ## Recording failures -/

theorem recover_strict (settings : Settings) (p : Progress) (f : Failure) :
    p.recover (settings.recording false) f = (p, some f) := by
  have ht : tolerates (settings.recording false) f = false := Bool.false_and _
  rw [recover, ht]
  rfl

theorem recover_of_recoverable (p : Progress) (hs : settings.bestEffort = true)
    (hf : f.recoverable = true) : p.recover settings f = (p.report [.ofFailure f], none) := by
  have ht : tolerates settings f = true := by rw [tolerates, hs, hf]; rfl
  rw [recover, ht]
  rfl

theorem recover_of_not_recoverable (settings : Settings) (p : Progress)
    (hf : f.recoverable = false) : p.recover settings f = (p, some f) := by
  have ht : tolerates settings f = false := by rw [tolerates, hf, Bool.and_false]
  rw [recover, ht]
  rfl

/-! ## What was found before stays -/

theorem report_grows (p : Progress) (ds : List Diagnostic) :
    p.diagnostics <+: (p.report ds).diagnostics := List.prefix_append _ _

theorem recover_grows (settings : Settings) (p : Progress) (f : Failure) :
    p.diagnostics <+: (p.recover settings f).1.diagnostics := by
  rw [recover]
  split
  · exact p.report_grows _
  · exact List.prefix_rfl

theorem openStage_grows (settings : Settings) (p : Progress) (base : BaseImage)
    (lines : LineSpan) : p.diagnostics <+: (p.openStage settings base lines).1.diagnostics := by
  rcases openStage_cases settings p base lines with
    ⟨a, -, h⟩ | ⟨f, -, -, ⟨-, h⟩ | ⟨-, a, h, -⟩⟩
  · rw [h]
    exact List.prefix_rfl
  · rw [h]
  · rw [h]
    exact p.report_grows _

theorem place_grows (settings : Settings) (p : Progress) (index : Nat) (e : Entry) :
    p.diagnostics <+: (p.place settings index e).1.diagnostics := by
  rw [place]
  split
  · exact openStage_grows settings p _ _
  · split
    · exact List.prefix_rfl
    · split
      · exact List.prefix_rfl
      · exact List.prefix_rfl

theorem take_grows (settings : Settings) (p : Progress) (l : LogicalLine) :
    p.diagnostics <+: (p.take settings l).1.diagnostics := by
  rw [take_eq, absorb]
  split
  · exact List.prefix_append _ _
  · exact (report_grows { p with count := p.count + 1 } _).trans (place_grows settings _ _ _)

theorem settle_grows (settings : Settings) (a : Advance) :
    a.1.diagnostics <+: (settle settings a).1.diagnostics := by
  rcases a with ⟨q, _ | f⟩
  · exact List.prefix_rfl
  · exact recover_grows settings q f

theorem advance_grows (settings : Settings) (p : Progress) (l : LogicalLine) :
    p.diagnostics <+: (p.advance settings l).1.diagnostics :=
  (take_grows settings p l).trans (settle_grows settings _)

theorem andThen_grows {a : Advance} {next : Progress → Advance}
    (h : ∀ q, q.diagnostics <+: (next q).1.diagnostics) :
    a.1.diagnostics <+: (a.andThen next).1.diagnostics := by
  rcases a with ⟨q, _ | f⟩
  · exact h q
  · exact List.prefix_rfl

/-- **Findings are only added.** -/
theorem takeAll_grows (settings : Settings) (p : Progress) (ls : List LogicalLine) :
    p.diagnostics <+: (takeAll settings p ls).1.diagnostics := by
  induction ls generalizing p with
  | nil => exact List.prefix_rfl
  | cons l ls ih =>
    rw [takeAll_cons]
    exact (advance_grows settings p l).trans (andThen_grows ih)

theorem recoverAll_grows (settings : Settings) (p : Progress) (fs : List Failure) :
    p.diagnostics <+: (recoverAll settings p fs).1.diagnostics := by
  induction fs generalizing p with
  | nil => exact List.prefix_rfl
  | cons f fs ih =>
    rw [recoverAll_cons]
    exact (recover_grows settings p f).trans (andThen_grows ih)

/-! ## What ends a tolerant reading -/

/-- A failure that stands in the way could not be recorded. -/
def Stops (a : Advance) : Prop := ∀ f ∈ a.2, f.recoverable = false

theorem settle_stops (hs : settings.bestEffort = true) (a : Advance) :
    Stops (settle settings a) := by
  rcases a with ⟨q, _ | f⟩
  · intro g hg
    cases hg
  · intro g hg
    rw [settle] at hg
    cases hf : f.recoverable with
    | true =>
      rw [recover_of_recoverable q hs hf] at hg
      cases hg
    | false =>
      rw [recover_of_not_recoverable settings q hf] at hg
      cases hg
      exact hf

theorem andThen_stops {a : Advance} {next : Progress → Advance} (ha : Stops a)
    (h : ∀ q, Stops (next q)) : Stops (a.andThen next) := by
  rcases a with ⟨q, _ | f⟩
  · exact h q
  · exact ha

/-- **A tolerant reading ends only where it cannot go on.** -/
theorem takeAll_stops (hs : settings.bestEffort = true) (p : Progress) (ls : List LogicalLine) :
    Stops (takeAll settings p ls) := by
  induction ls generalizing p with
  | nil =>
    intro f hf
    cases hf
  | cons l ls ih =>
    rw [takeAll_cons]
    exact andThen_stops (settle_stops hs _) ih

theorem recoverAll_stops (hs : settings.bestEffort = true) (p : Progress) (fs : List Failure) :
    Stops (recoverAll settings p fs) := by
  induction fs generalizing p with
  | nil =>
    intro f hf
    cases hf
  | cons f fs ih =>
    rw [recoverAll_cons]
    exact andThen_stops (settle_stops hs (p, some f)) ih

/-! ## Lock step -/

/-- How a place reached by a tolerant reading stands to the place that a strict one reached. -/
def Refines (strict tolerant : Advance) : Prop :=
  match strict with
  | (p, none) => tolerant = (p, none)
  | (p, some f) =>
    if f.recoverable = true then
      p.diagnostics ++ [.ofFailure f] <+: tolerant.1.diagnostics ∧ Stops tolerant
    else tolerant = (p, some f)

/-- **Two steps that refine each other refine each other in a row.** -/
theorem Refines.andThen {a b : Advance} {next next' : Progress → Advance} (h : Refines a b)
    (hnext : ∀ q, Refines (next q) (next' q))
    (hgrows : ∀ q, q.diagnostics <+: (next' q).1.diagnostics) (hstops : ∀ q, Stops (next' q)) :
    Refines (a.andThen next) (b.andThen next') := by
  rcases a with ⟨p, _ | f⟩
  · have hb : b = (p, none) := h
    rw [hb]
    exact hnext p
  · -- the strict reading is over; a tolerant one that goes on only adds to what was found
    rw [Refines] at h
    rw [Advance.andThen, Refines]
    by_cases hf : f.recoverable = true
    · rw [if_pos hf] at h ⊢
      obtain ⟨hdiag, hstop⟩ := h
      exact ⟨hdiag.trans (andThen_grows hgrows), andThen_stops hstop hstops⟩
    · rw [if_neg hf] at h ⊢
      rw [h]
      rfl

theorem refines_recover (p : Progress) (f : Failure) :
    Refines (p, some f) (p.recover (settings.recording true) f) := by
  rw [Refines]
  by_cases hf : f.recoverable = true
  · rw [if_pos hf, recover_of_recoverable p rfl hf]
    refine ⟨List.prefix_rfl, ?_⟩
    intro g hg
    cases hg
  · rw [if_neg hf, recover_of_not_recoverable _ p (Bool.eq_false_iff.mpr hf)]

/-- What the two readings make of one line before it is settled: the same, or a stage name that is
taken, which only the tolerant one gets past. -/
theorem place_agrees (settings : Settings) (p : Progress) (index : Nat) (e : Entry) :
    p.place (settings.recording true) index e = p.place (settings.recording false) index e ∨
      ∃ f a, f.recoverable = true ∧
        p.place (settings.recording false) index e = (p, some f) ∧
        p.place (settings.recording true) index e = ((p.report [.ofFailure f]).opened a, none) := by
  rw [place, place]
  -- only opening a stage asks for the settings
  split
  · rename_i base _
    rcases openStage_cases (settings.recording false) p base e.lines with
      ⟨a, ha, hstrict⟩ | ⟨f, hf, hrec, ⟨-, hstrict⟩ | ⟨hfalse, -⟩⟩
    · rcases openStage_cases (settings.recording true) p base e.lines with
        ⟨b, hb, htol⟩ | ⟨g, hg, -⟩
      · left
        rw [hstrict, htol, Except.ok.inj (ha.symm.trans hb)]
      · rw [ha] at hg
        cases hg
    · rcases openStage_cases (settings.recording true) p base e.lines with
        ⟨b, hb, -⟩ | ⟨g, hg, -, ⟨hfalse, -⟩ | ⟨-, b, htol, -⟩⟩
      · rw [hf] at hb
        cases hb
      · cases hfalse
      · right
        refine ⟨f, b, hrec, hstrict, ?_⟩
        rw [htol, Except.error.inj (hf.symm.trans hg)]
    · cases hfalse
  · left
    rfl

theorem absorb_refines (settings : Settings) (p : Progress) (index : Nat) (lines : LineSpan)
    (o : Outcome Instruction) :
    Refines (absorb (settings.recording false) p index lines o)
      (settle (settings.recording true) (absorb (settings.recording true) p index lines o)) := by
  rw [absorb, absorb]
  split
  · exact refines_recover _ _
  · rename_i i _
    rcases place_agrees settings (p.report (o.undeclared.map (undeclaredWarning lines))) index
        ⟨i, lines⟩ with h | ⟨f, a, hf, hstrict, htol⟩
    · simp only [h]
      generalize place (settings.recording false) _ index _ = b
      rcases b with ⟨q, _ | f⟩
      · rfl
      · exact refines_recover q f
    · simp only [hstrict, htol]
      rw [Refines, if_pos hf]
      refine ⟨List.prefix_rfl, ?_⟩
      intro g hg
      cases hg

theorem settle_strict (settings : Settings) (a : Advance) :
    settle (settings.recording false) a = a := by
  rcases a with ⟨q, _ | f⟩
  · rfl
  · exact recover_strict settings q f

/-- **One line keeps the readings in step.** -/
theorem advance_refines (settings : Settings) (p : Progress) (l : LogicalLine) :
    Refines (p.advance (settings.recording false) l) (p.advance (settings.recording true) l) := by
  rw [advance, advance, settle_strict, take_eq, take_eq]
  exact absorb_refines settings _ _ _ _

/-- **All lines keep the readings in step.** -/
theorem takeAll_refines (settings : Settings) (p : Progress) (ls : List LogicalLine) :
    Refines (takeAll (settings.recording false) p ls) (takeAll (settings.recording true) p ls) := by
  induction ls generalizing p with
  | nil => rfl
  | cons l ls ih =>
    rw [takeAll_cons, takeAll_cons]
    exact (advance_refines settings p l).andThen ih (fun q => takeAll_grows _ q ls)
      fun q => takeAll_stops rfl q ls

theorem recoverAll_refines (settings : Settings) (p : Progress) (fs : List Failure) :
    Refines (recoverAll (settings.recording false) p fs)
      (recoverAll (settings.recording true) p fs) := by
  induction fs generalizing p with
  | nil => rfl
  | cons f fs ih =>
    rw [recoverAll_cons, recoverAll_cons, recover_strict]
    exact (refines_recover p f).andThen ih (fun q => recoverAll_grows _ q fs)
      fun q => recoverAll_stops rfl q fs

/-! ## What a strict reading finds -/

/-- Findings none of which is an error. -/
def Clean (ds : List Diagnostic) : Prop := ∀ d ∈ ds, d.isError = false

theorem Clean.append {ds es : List Diagnostic} (hd : Clean ds) (he : Clean es) :
    Clean (ds ++ es) := by
  intro d hmem
  rcases List.mem_append.mp hmem with h | h
  · exact hd d h
  · exact he d h

theorem clean_warnings (lines : LineSpan) (names : List Text) :
    Clean (names.map (undeclaredWarning lines)) := by
  intro d hd
  obtain ⟨name, -, rfl⟩ := List.mem_map.mp hd
  rfl

/-- Taking an instruction finds nothing, unless a failure is recorded. -/
theorem diagnostics_place_strict (settings : Settings) (p : Progress) (index : Nat) (e : Entry) :
    (p.place (settings.recording false) index e).1.diagnostics = p.diagnostics := by
  rw [place]
  split
  · rename_i base _
    rcases openStage_cases (settings.recording false) p base e.lines with
      ⟨a, -, h⟩ | ⟨f, -, -, ⟨-, h⟩ | ⟨hfalse, -⟩⟩
    · rw [h]
      rfl
    · rw [h]
    · cases hfalse
  · split
    · rfl
    · split
      · rfl
      · rfl

theorem clean_advance_strict (settings : Settings) (p : Progress) (l : LogicalLine)
    (hp : Clean p.diagnostics) :
    Clean (p.advance (settings.recording false) l).1.diagnostics := by
  have hq : ∀ names : List Text,
      Clean (p.diagnostics ++ names.map (undeclaredWarning l.lines)) :=
    fun names => hp.append (clean_warnings l.lines names)
  rw [advance, settle_strict, take_eq, absorb]
  split
  · exact hq _
  · rw [diagnostics_place_strict]
    exact hq _

/-- **A strict reading finds no errors before its failure.** -/
theorem clean_takeAll_strict (settings : Settings) (p : Progress) (ls : List LogicalLine)
    (hp : Clean p.diagnostics) :
    Clean (takeAll (settings.recording false) p ls).1.diagnostics := by
  induction ls generalizing p with
  | nil => exact hp
  | cons l ls ih =>
    have hl := clean_advance_strict settings p l hp
    rw [takeAll_cons]
    rcases hq : p.advance (settings.recording false) l with ⟨q, _ | f⟩
    · rw [hq] at hl
      exact ih q hl
    · rw [hq] at hl
      exact hl

theorem diagnostics_recoverAll_strict (settings : Settings) (p : Progress) (fs : List Failure) :
    (recoverAll (settings.recording false) p fs).1.diagnostics = p.diagnostics := by
  cases fs with
  | nil => rfl
  | cons f fs =>
    rw [recoverAll_cons, recover_strict]
    rfl

end Progress

/-! ## Before and after the lines -/

namespace Preamble

/-- An escape directive is taken without a warning, or refused for good. -/
theorem takeEscape_spec (p : Preamble) (honor : Bool) (value : Text) (line : Nat) :
    match p.takeEscape honor value line with
    | .ok q => q.warnings = p.warnings
    | .error f => f.recoverable = false := by
  rw [takeEscape_eq]
  by_cases h : (p.directives.escape.isSome || honor && (chosenEscape? value).isNone) = true
  · rw [if_pos h]
    rfl
  · rw [if_neg h]
    rfl

/-- A directive adds no error to what was found, or is refused for good. -/
theorem take_spec {p : Preamble} {honor : Bool} {name value : Text} {line : Nat}
    {r : Except Failure Preamble} (hp : Progress.Clean p.warnings)
    (h : p.take honor name value line = some r) :
    match r with
    | .ok q => Progress.Clean q.warnings
    | .error f => f.recoverable = false := by
  have hwarned : Progress.Clean (p.warnings ++ [repeated name line]) := by
    apply hp.append
    intro d hd
    rw [List.mem_singleton.mp hd]
    rfl
  rw [take] at h
  split at h
  · have he := takeEscape_spec p honor value line
    rw [Option.some.inj h] at he
    cases r with
    | error f => exact he
    | ok q =>
      have hq : q.warnings = p.warnings := he
      rw [← hq] at hp
      exact hp
  · split at h
    · cases h
      show Progress.Clean _
      split
      · exact hwarned
      · exact hp
    · split at h
      · cases h
        show Progress.Clean _
        split
        · exact hwarned
        · exact hp
      · cases h

/-- A preamble is read without an error, or its failure is final. -/
theorem readOn_spec (honor : Bool) (p : Preamble) (ls : List PhysicalLine)
    (hp : Progress.Clean p.warnings) :
    Progress.Clean (readOn honor p ls).preamble.warnings ∧
      ∀ f, (readOn honor p ls).rest = .error f → f.recoverable = false := by
  induction ls generalizing p with
  | nil =>
    refine ⟨hp, ?_⟩
    intro f hf
    cases hf
  | cons l ls ih =>
    have hstay : Progress.Clean p.warnings ∧
        ∀ f, (Except.ok (l :: ls) : Except Failure (List PhysicalLine)) = .error f →
          f.recoverable = false := by
      refine ⟨hp, ?_⟩
      intro f hf
      cases hf
    rw [readOn]
    split
    · exact ih p hp
    · split
      · exact hstay
      · split
        · exact hstay
        · rename_i f hf
          refine ⟨hp, ?_⟩
          intro g hg
          cases hg
          exact take_spec hp hf
        · rename_i q hq
          exact ih q (take_spec hp hq)

end Preamble

/-- A heredoc without terminator ends every reading. -/
theorem LogicalLine.failure_of_readAll {escape : Char} {ls : List PhysicalLine} {f : Failure}
    (h : (readAll escape ls).2 = some f) : f.recoverable = false := by
  fun_induction readAll escape ls with
  | case1 => cases h
  | case2 l ls _ ih => exact ih h
  | case3 l ls _ g hg =>
    cases h
    rw [readAt] at hg
    split at hg
    · cases hg
      rfl
    · cases hg
  | case4 l ls _ line rest _ lines failure hrest ih =>
    rw [hrest] at ih
    exact ih h

/-- The lines of a file are known without an error, or the failure is final. -/
theorem Layout.read_spec (honor : Bool) (ts : List Text) :
    Progress.Clean (Layout.read honor ts).preamble.warnings ∧
      ∀ f, (Layout.read honor ts).failure = some f → f.recoverable = false := by
  have hnil : Progress.Clean ({} : Preamble).warnings := by
    intro d hd
    cases hd
  obtain ⟨hclean, hfinal⟩ :=
    Preamble.readOn_spec honor {} (PhysicalLine.ofLines ts) hnil
  rw [Layout.read, Preamble.read]
  rcases hr : Preamble.readOn honor {} (PhysicalLine.ofLines ts) with ⟨p, f | ls⟩
  · rw [hr] at hclean hfinal
    refine ⟨hclean, ?_⟩
    intro g hg
    cases hg
    exact hfinal f rfl
  · rw [hr] at hclean
    refine ⟨hclean, ?_⟩
    intro f hf
    exact LogicalLine.failure_of_readAll hf

/-- A file that lacks something to build lacks it in every reading. -/
theorem failure_of_checkDocument {count : Nat} {stages : List Stage} {f : Failure}
    (h : checkDocument count stages = some f) : f.recoverable = false := by
  rw [checkDocument] at h
  split at h
  · cases h
    rfl
  · split at h
    · cases h
      rfl
    · cases h

/-! ## Whole readings -/

/-- How a tolerant reading of a file stands to a strict one.  After a failure that can be recorded,
it ends in one that cannot, or yields a document whose findings begin with those of the strict
reading, which are no errors, and that failure. -/
def Document.Refines (strict tolerant : Except (Failure × List Diagnostic) Document) : Prop :=
  match strict with
  | .ok d => tolerant = .ok d
  | .error (f, ds) =>
    if f.recoverable = true then
      Progress.Clean ds ∧
        match tolerant with
        | .ok d => ds ++ [.ofFailure f] <+: d.diagnostics
        | .error (g, _) => g.recoverable = false
    else tolerant = .error (f, ds)

namespace Progress

/-- A reading that ends without a failure that could be recorded has all findings of its last place
in front, or a failure that cannot be recorded. -/
theorem conclude_grows (directives : Directives) {a : Advance} {ds : List Diagnostic}
    (hgrows : ds <+: a.1.diagnostics) (hstops : Stops a) :
    match conclude directives a with
    | .ok d => ds <+: d.diagnostics
    | .error (g, _) => g.recoverable = false := by
  rcases a with ⟨q, _ | f⟩
  · rw [conclude]
    cases hc : checkDocument q.count (q.assembly.finish q.scope) with
    | some f => exact failure_of_checkDocument hc
    | none => exact hgrows.trans (List.prefix_append _ _)
  · exact hstops f rfl

theorem conclude_refines (directives : Directives) {a b : Advance} (h : Refines a b)
    (hclean : Clean a.1.diagnostics) :
    Document.Refines (conclude directives a) (conclude directives b) := by
  rcases a with ⟨p, _ | f⟩
  · have hb : b = (p, none) := h
    rw [hb, conclude]
    cases hc : checkDocument p.count (p.assembly.finish p.scope) with
    | some f =>
      have hf := failure_of_checkDocument hc
      simp only
      rw [Document.Refines, if_neg (by rw [hf]; decide)]
    | none =>
      rfl
  · rw [Refines] at h
    unfold conclude Document.Refines
    dsimp only
    by_cases hf : f.recoverable = true
    · rw [if_pos hf] at h ⊢
      exact ⟨hclean, conclude_grows directives h.1 h.2⟩
    · rw [if_neg hf] at h ⊢
      rw [h]

theorem finish_refines (settings : Settings) (p : Progress) (directives : Directives)
    (hp : Clean p.diagnostics) :
    Document.Refines (p.finish (settings.recording false) directives)
      (p.finish (settings.recording true) directives) := by
  rw [finish_eq, finish_eq]
  apply conclude_refines directives (recoverAll_refines settings p _)
  rw [diagnostics_recoverAll_strict]
  exact hp

end Progress

namespace Document

theorem complete_grows {settings : Settings} {layout : Layout} {a : Advance}
    {ds : List Diagnostic} (hs : settings.bestEffort = true)
    (hfinal : ∀ f, layout.failure = some f → f.recoverable = false)
    (hgrows : ds <+: a.1.diagnostics) (hstops : Progress.Stops a) :
    match complete settings layout a with
    | .ok d => ds <+: d.diagnostics
    | .error (g, _) => g.recoverable = false := by
  rcases a with ⟨p, _ | f⟩
  · rw [complete]
    cases hl : layout.failure with
    | some f => exact hfinal f hl
    | none =>
      simp only
      rw [Progress.finish_eq]
      exact Progress.conclude_grows _ (hgrows.trans (Progress.recoverAll_grows settings p _))
        (Progress.recoverAll_stops hs p _)
  · exact hstops f rfl

/-- **A tolerant reading refines the strict one**, whatever the lines and the other settings. -/
theorem readFully_refines (settings : Settings) (ts : List Text) :
    Refines (readFully (settings.recording false) ts) (readFully (settings.recording true) ts) := by
  have hescape : ∀ b, (settings.recording b).escapeDirective = settings.escapeDirective :=
    fun _ => rfl
  obtain ⟨hwarnings, hfinal⟩ := Layout.read_spec settings.escapeDirective ts
  rw [readFully_eq, readFully_eq, hescape, hescape]
  generalize Layout.read settings.escapeDirective ts = layout at *
  have hclean := Progress.clean_takeAll_strict settings (start layout) layout.lines hwarnings
  have hstep := Progress.takeAll_refines settings (start layout) layout.lines
  generalize hb : (start layout).takeAll (settings.recording true) layout.lines = b at *
  rcases ha : (start layout).takeAll (settings.recording false) layout.lines with ⟨p, _ | f⟩
  · rw [ha] at hstep hclean
    have hp : b = (p, none) := hstep
    rw [hp, complete, complete]
    cases hl : layout.failure with
    | some f =>
      simp only
      rw [Refines, if_neg (by rw [hfinal f hl]; decide)]
    | none => exact Progress.finish_refines settings p _ hclean
  · rw [ha] at hstep hclean
    rw [Progress.Refines] at hstep
    unfold Refines
    rw [complete]
    dsimp only
    by_cases hf : f.recoverable = true
    · rw [if_pos hf] at hstep ⊢
      exact ⟨hclean, complete_grows rfl hfinal hstep.1 hstep.2⟩
    · rw [if_neg hf] at hstep ⊢
      rw [hstep, complete]

/-- **What a tolerant reading keeps of the strict one.**

1. What can be read strictly is read to the same document, findings included.
2. A document that was read without an error can be read strictly to the same.
3. A failure after which no reading can go on is that of both.
4. After any other failure of the strict reading, the tolerant one ends in a failure that cannot be
   recorded, or yields a document whose first error is that failure; before it stand the findings of
   the strict reading in their order. -/
theorem tolerant_refines_strict (settings : Settings) (ts : List Text) :
    (∀ d, readLines (settings.recording false) ts = .ok d →
      readLines (settings.recording true) ts = .ok d) ∧
    (∀ d, readLines (settings.recording true) ts = .ok d → d.hasErrors = false →
      readLines (settings.recording false) ts = .ok d) ∧
    (∀ f, readLines (settings.recording false) ts = .error f → f.recoverable = false →
      readLines (settings.recording true) ts = .error f) ∧
    ∀ f, readLines (settings.recording false) ts = .error f → f.recoverable = true →
      (∃ g, readLines (settings.recording true) ts = .error g ∧ g.recoverable = false) ∨
        ∃ d ds later, readLines (settings.recording true) ts = .ok d ∧
          readFully (settings.recording false) ts = .error (f, ds) ∧
          d.diagnostics = ds ++ .ofFailure f :: later ∧
          d.diagnostics.find? Diagnostic.isError = some (.ofFailure f) := by
  have h := readFully_refines settings ts
  unfold readLines
  generalize readFully (settings.recording false) ts = s at *
  generalize readFully (settings.recording true) ts = t at *
  rcases s with ⟨f, ds⟩ | d
  · unfold Refines at h
    dsimp only at h
    cases hf : f.recoverable with
    | false =>
      rw [if_neg (by rw [hf]; decide)] at h
      rw [h]
      refine ⟨?_, ?_, ?_, ?_⟩
      · intro d hd
        cases hd
      · intro d hd
        cases hd
      · intro g hg _
        exact hg
      · intro g hg hrec
        rw [← Except.error.inj hg, hf] at hrec
        cases hrec
    | true =>
      rw [if_pos hf] at h
      obtain ⟨hclean, h⟩ := h
      refine ⟨?_, ?_, ?_, ?_⟩
      · intro d hd
        cases hd
      · intro d hd hnone
        rcases t with ⟨g, es⟩ | d'
        · cases hd
        · -- the failure was recorded as an error
          obtain ⟨later, hlater⟩ : ds ++ [.ofFailure f] <+: d'.diagnostics := h
          rw [← Except.ok.inj hd, hasErrors, ← hlater] at hnone
          simp [Diagnostic.isError, Diagnostic.ofFailure] at hnone
      · intro g hg hrec
        rw [← Except.error.inj hg, hf] at hrec
        cases hrec
      · intro g hg _
        have hfg : f = g := Except.error.inj hg
        rw [← hfg]
        rcases t with ⟨e, es⟩ | d
        · exact Or.inl ⟨e, rfl, h⟩
        · obtain ⟨later, hlater⟩ : ds ++ [.ofFailure f] <+: d.diagnostics := h
          have hdiag : d.diagnostics = ds ++ .ofFailure f :: later := by
            rw [← hlater, List.append_assoc, List.singleton_append]
          have hnone : ds.find? Diagnostic.isError = none := by
            rw [List.find?_eq_none]
            intro x hx
            rw [hclean x hx]
            decide
          refine Or.inr ⟨d, ds, later, rfl, rfl, hdiag, ?_⟩
          rw [hdiag, List.find?_append, hnone]
          rfl
  · have ht : t = .ok d := h
    rw [ht]
    refine ⟨?_, ?_, ?_, ?_⟩
    · intro e he
      exact he
    · intro e he _
      exact he
    · intro f hf
      cases hf
    · intro f hf
      cases hf

/-- An unknown instruction between two others. -/
theorem tolerant_refines_strict_unknown :
    let ts := ["FROM scratch".toList, "NOPE x".toList, "RUN $A".toList]
    let f : Failure := .unknownInstruction "NOPE".toList (.single 2)
    readLines (Settings.recording {} false) ts = .error f ∧ f.recoverable = true ∧
      ((∃ g, readLines (Settings.recording {} true) ts = .error g ∧ g.recoverable = false) ∨
        ∃ d ds later, readLines (Settings.recording {} true) ts = .ok d ∧
          readFully (Settings.recording {} false) ts = .error (f, ds) ∧
          d.diagnostics = ds ++ .ofFailure f :: later ∧
          d.diagnostics.find? Diagnostic.isError = some (.ofFailure f)) := by
  have hs : readLines (Settings.recording {} false)
      ["FROM scratch".toList, "NOPE x".toList, "RUN $A".toList] =
        .error (.unknownInstruction "NOPE".toList (.single 2)) := by
    decide +kernel
  exact ⟨hs, rfl, (tolerant_refines_strict {} _).2.2.2 _ hs rfl⟩

end Document

end Containerfile
