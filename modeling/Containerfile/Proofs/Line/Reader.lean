import Containerfile.Line.Reader
import Containerfile.Proofs.Line.Bodies
import Containerfile.Proofs.Line.Directives
import Containerfile.Proofs.Line.Joining

/-! # What readers know

A reader makes its turns one after the other until it has no more lines or is stopped.
`LineReader.Turn` lists the ways in which a turn can end, and `LineReader.Reads` strings turns
together.  What the lines before a reader come to is its outlook, and turns yield it piece by
piece (`LineReader.Reads.outlook`), so in the end a reader has yielded what `Layout.read`
reads, failure included.

A preamble is tied to the directives behind the reader by `Preamble.Recorded`, which holds at the
start and which every directive keeps (`Preamble.Recorded.take`).  The line that ends the preamble
stays behind the reader, so from then on no directive is to come
(`Directive.ofLines_append_of_ends`), and nothing changes what is known
(`LineReader.Reads.preamble`).  `LineReader.Knows` is what turns keep of all this.

Main statement: `LineReader.directives_of_reads`. -/
namespace Containerfile

namespace Directive

variable {ds : List Directive} {d : Directive} {name : Text} {ls more : List PhysicalLine}
  {l : PhysicalLine}

/-! ## Occurrences of a name -/

/-- The value of the first directive of a name. -/
def first? (name : Text) (ds : List Directive) : Option Text :=
  (ds.find? (·.name == name)).map Directive.value

/-- The number of directives of a name after the first one. -/
def further (name : Text) (ds : List Directive) : Nat := ds.countP (·.name == name) - 1

theorem first?_concat_of_ne (h : d.name ≠ name) : first? name (ds ++ [d]) = first? name ds := by
  have hd : (d.name == name) = false := beq_eq_false_iff_ne.mpr h
  rw [first?, List.find?_append, List.find?_cons, hd, List.find?_nil, Option.or_none]
  rfl

/-- The first directive of a name keeps its place. -/
theorem first?_concat (h : d.name = name) :
    first? name (ds ++ [d]) = (first? name ds).or (some d.value) := by
  rw [first?, first?, List.find?_append, List.find?_cons, h, beq_self_eq_true]
  cases ds.find? (·.name == name) with
  | none => rfl
  | some e => rfl

theorem further_concat_of_ne (h : d.name ≠ name) : further name (ds ++ [d]) = further name ds := by
  have hd : (d.name == name) = false := beq_eq_false_iff_ne.mpr h
  rw [further, List.countP_append, List.countP_singleton, hd]
  rfl

/-- A directive is a further one if there was one of its name. -/
theorem further_concat (h : d.name = name) :
    further name (ds ++ [d]) = further name ds + (if (first? name ds).isSome then 1 else 0) := by
  rw [further, further, List.countP_append, List.countP_singleton, h, beq_self_eq_true, if_pos rfl,
    first?]
  cases hfind : ds.find? (·.name == name) with
  | none =>
    have hzero : ds.countP (·.name == name) = 0 := by
      rw [List.countP_eq_zero]
      exact List.find?_eq_none.mp hfind
    rw [hzero]
    rfl
  | some e =>
    have hname := List.find?_some hfind
    have hpos : 0 < ds.countP (·.name == name) :=
      List.countP_pos_iff.mpr ⟨e, List.mem_of_find?_eq_some hfind, hname⟩
    show ds.countP (·.name == name) + 1 - 1 = ds.countP (·.name == name) - 1 + 1
    omega

/-! ## Lines of directives -/

/-- Whether a line ends the directives: it is neither empty nor a directive. -/
def ends (l : PhysicalLine) : Bool := !l.isEmpty && (ofLine? l).isNone

theorem ends_iff : ends l = true ↔ l.isEmpty = false ∧ ofLine? l = none := by
  simp [ends]

theorem not_ends_iff : ends l = false ↔ l.isEmpty = true ∨ ∃ d, ofLine? l = some d := by
  rw [← Option.isSome_iff_exists, ends, Bool.and_eq_false_iff, Bool.not_eq_false',
    Option.isNone_eq_false_iff]

theorem ofLines_nil : ofLines [] = [] := rfl

theorem ofLines_of_ends (h : ends l = true) : ofLines (l :: ls) = [] := by
  obtain ⟨hl, hd⟩ := ends_iff.mp h
  exact ofLines_of_none hl hd

/-- Before their end directives come from one line after the other. -/
theorem ofLines_append (h : ∀ l ∈ ls, ends l = false) :
    ofLines (ls ++ more) = ofLines ls ++ ofLines more := by
  induction ls with
  | nil => rfl
  | cons l ls ih =>
    rw [List.forall_mem_cons] at h
    rw [List.cons_append]
    rcases not_ends_iff.mp h.1 with hl | ⟨d, hd⟩
    · rw [ofLines_of_isEmpty hl, ofLines_of_isEmpty hl, ih h.2]
    · rw [ofLines_of_some hd, ofLines_of_some hd, ih h.2, List.cons_append]

/-- After their end none comes. -/
theorem ofLines_append_of_ends (h : ∃ l ∈ ls, ends l = true) :
    ofLines (ls ++ more) = ofLines ls := by
  induction ls with
  | nil =>
    obtain ⟨l, hl, -⟩ := h
    cases hl
  | cons k ls ih =>
    rw [List.cons_append]
    by_cases hk : ends k = true
    · rw [ofLines_of_ends hk, ofLines_of_ends hk]
    · obtain ⟨l, hl, hends⟩ := h
      have hmem : l ∈ ls := by
        rcases List.mem_cons.mp hl with rfl | hl
        · exact absurd hends hk
        · exact hl
      rw [Bool.not_eq_true] at hk
      rcases not_ends_iff.mp hk with hblank | ⟨d, hd⟩
      · rw [ofLines_of_isEmpty hblank, ofLines_of_isEmpty hblank, ih ⟨l, hmem, hends⟩]
      · rw [ofLines_of_some hd, ofLines_of_some hd, ih ⟨l, hmem, hends⟩]

end Directive

/-! ## What directives say -/

namespace Preamble

open Directive

variable {honor : Bool} {ds : List Directive} {d : Directive} {p q : Preamble} {name : Text}

/-- The number of warnings about directives that are repeated. -/
def duplicates (p : Preamble) : Nat := p.warnings.countP (·.code == "DuplicateDirective")

/-- Whether a preamble holds what directives say. -/
structure Recorded (honor : Bool) (ds : List Directive) (p : Preamble) : Prop where
  choice : p.escape ∈ escapeChoices
  escape : p.escape = if honor then p.directives.escape.getD defaultEscape else defaultEscape
  frontend : p.directives.frontend = first? "syntax".toList ds
  check : p.directives.check = first? "check".toList ds
  duplicates : p.duplicates = further "syntax".toList ds + further "check".toList ds

theorem recorded_nil (honor : Bool) : Recorded honor [] {} where
  choice := by decide
  escape := by cases honor <;> rfl
  frontend := rfl
  check := rfl
  duplicates := rfl

/-- An escape directive says nothing about the frontend and the checks. -/
theorem Recorded.of_escape (h : Recorded honor ds p) (hd : d.name = "escape".toList)
    (hchoice : q.escape ∈ escapeChoices)
    (hescape : q.escape = if honor then q.directives.escape.getD defaultEscape else defaultEscape)
    (hfrontend : q.directives.frontend = p.directives.frontend)
    (hcheck : q.directives.check = p.directives.check) (hwarnings : q.warnings = p.warnings) :
    Recorded honor (ds ++ [d]) q := by
  have hsyntax : d.name ≠ "syntax".toList := by rw [hd]; decide
  have hchecks : d.name ≠ "check".toList := by rw [hd]; decide
  refine ⟨hchoice, hescape, ?_, ?_, ?_⟩
  · rw [hfrontend, h.frontend, first?_concat_of_ne hsyntax]
  · rw [hcheck, h.check, first?_concat_of_ne hchecks]
  · rw [Preamble.duplicates, hwarnings, further_concat_of_ne hsyntax, further_concat_of_ne hchecks]
    exact h.duplicates

/-- Another directive of a name changes nothing and is warned about. -/
theorem Recorded.of_repeated (h : Recorded honor ds p)
    (hd : d.name ∈ ["syntax".toList, "check".toList]) (hsome : (first? d.name ds).isSome = true) :
    Recorded honor (ds ++ [d]) { p with warnings := p.warnings ++ [repeated d.name d.line] } := by
  have hfirst : ∀ name, first? name (ds ++ [d]) = first? name ds := by
    intro name
    by_cases hname : d.name = name
    · obtain ⟨value, hvalue⟩ := Option.isSome_iff_exists.mp hsome
      rw [first?_concat hname, ← hname, hvalue]
      rfl
    · exact first?_concat_of_ne hname
  refine ⟨h.choice, h.escape, h.frontend.trans (hfirst _).symm, h.check.trans (hfirst _).symm, ?_⟩
  have hwarned : Preamble.duplicates { p with warnings := p.warnings ++ [repeated d.name d.line] } =
      p.duplicates + 1 := by
    rw [Preamble.duplicates, List.countP_append, List.countP_singleton]
    rfl
  rw [hwarned, h.duplicates]
  rcases List.mem_pair.mp hd with hname | hname
  · rw [further_concat hname, further_concat_of_ne (by rw [hname]; decide), ← hname, hsome,
      if_pos rfl]
    omega
  · rw [further_concat hname, further_concat_of_ne (by rw [hname]; decide), ← hname, hsome,
      if_pos rfl]
    omega

/-- The first directive about the frontend. -/
theorem Recorded.of_frontend (h : Recorded honor ds p) (hd : d.name = "syntax".toList)
    (hnone : p.directives.frontend = none) :
    Recorded honor (ds ++ [d])
      { p with directives := { p.directives with frontend := some d.value } } := by
  have hchecks : d.name ≠ "check".toList := by rw [hd]; decide
  rw [h.frontend] at hnone
  refine ⟨h.choice, h.escape, ?_, ?_, ?_⟩
  · rw [first?_concat hd, hnone]
    rfl
  · rw [first?_concat_of_ne hchecks]
    exact h.check
  · rw [further_concat hd, hnone, further_concat_of_ne hchecks]
    exact h.duplicates

/-- The first directive about the checks. -/
theorem Recorded.of_check (h : Recorded honor ds p) (hd : d.name = "check".toList)
    (hnone : p.directives.check = none) :
    Recorded honor (ds ++ [d])
      { p with directives := { p.directives with check := some d.value } } := by
  have hsyntax : d.name ≠ "syntax".toList := by rw [hd]; decide
  rw [h.check] at hnone
  refine ⟨h.choice, h.escape, ?_, ?_, ?_⟩
  · rw [first?_concat_of_ne hsyntax]
    exact h.frontend
  · rw [first?_concat hd, hnone]
    rfl
  · rw [further_concat hd, hnone, further_concat_of_ne hsyntax]
    exact h.duplicates

/-- **A directive that is taken** says what its name stands for, unless that was said before. -/
theorem Recorded.take (h : Recorded honor ds p) (hd : d.name ∈ names)
    (htake : p.take honor d.name d.value d.line = some (.ok q)) : Recorded honor (ds ++ [d]) q := by
  have hchoice := escape_of_take h.choice htake
  rcases List.mem_cons.mp hd with hname | hname
  · rw [hname] at htake
    have hescape : some (p.takeEscape honor d.value d.line) = some (.ok q) := htake
    rw [takeEscape_eq] at hescape
    split at hescape
    · cases hescape
    · cases hescape
      refine h.of_escape hname hchoice ?_ rfl rfl rfl
      cases honor with
      | true => rfl
      | false => exact h.escape
  · have hrepeats := h.of_repeated hname
    rcases List.mem_pair.mp hname with hname | hname
    · rw [hname] at htake hrepeats
      have hq := Except.ok.inj (Option.some.inj htake)
      rw [← h.frontend] at hrepeats
      cases hsome : p.directives.frontend with
      | some value =>
        rw [hsome] at hq hrepeats
        rw [← hq]
        exact hrepeats rfl
      | none =>
        rw [hsome] at hq
        rw [← hq]
        exact h.of_frontend hname hsome
    · rw [hname] at htake hrepeats
      have hq := Except.ok.inj (Option.some.inj htake)
      rw [← h.check] at hrepeats
      cases hsome : p.directives.check with
      | some value =>
        rw [hsome] at hq hrepeats
        rw [← hq]
        exact hrepeats rfl
      | none =>
        rw [hsome] at hq
        rw [← hq]
        exact h.of_check hname hsome

/-- Only an escape directive is refused. -/
theorem escape_of_refused {f : Failure} (hd : d.name ∈ names)
    (htake : p.take honor d.name d.value d.line = some (.error f)) : d.name = "escape".toList := by
  rcases List.mem_cons.mp hd with hname | hname
  · exact hname
  · rcases List.mem_pair.mp hname with hname | hname
    · rw [hname] at htake
      cases Option.some.inj htake
    · rw [hname] at htake
      cases Option.some.inj htake

/-- A directive is taken or refused. -/
theorem exists_take (honor : Bool) (p : Preamble) (hd : d.name ∈ names) :
    ∃ x, p.take honor d.name d.value d.line = some x := by
  rcases List.mem_cons.mp hd with hname | hname
  · exact ⟨p.takeEscape honor d.value d.line, by rw [hname]; rfl⟩
  · rcases List.mem_pair.mp hname with hname | hname
    · rw [hname]
      exact ⟨_, rfl⟩
    · rw [hname]
      exact ⟨_, rfl⟩

/-- A preamble takes a line as the directive that it is. -/
theorem takeLine_eq (honor : Bool) (p : Preamble) (l : PhysicalLine) :
    p.takeLine honor l = (ofLine? l).bind fun d => p.take honor d.name d.value d.line := by
  rw [takeLine, ofLine?]
  rcases splitDirective l.text.trim with _ | ⟨name, value⟩
  · rfl
  · rw [Option.bind_some, Option.bind_some]
    by_cases hname : names.contains name = true
    · rw [if_pos hname]
      rfl
    · rw [if_neg hname]
      rw [List.contains_iff_mem, names, List.mem_cons, List.mem_pair, not_or, not_or] at hname
      obtain ⟨hescape, hfrontend, hcheck⟩ := hname
      rw [take, if_neg hescape, if_neg hfrontend, if_neg hcheck]
      rfl

end Preamble

/-! ## Turns -/

namespace LineReader

open Directive (ends ofLine?)

variable {honor : Bool} {r q : LineReader} {l : PhysicalLine} {ls : List PhysicalLine}
  {y : Option Item}

/-- The ways in which a reader deals with a line. -/
inductive Turn (honor : Bool) (r : LineReader) (l : PhysicalLine) (ls : List PhysicalLine) :
    LineReader → Option Item → Prop
  | blank (hin : r.inPreamble = true) (hl : l.isEmpty = true) :
      Turn honor r l ls { r with rest := ls } none
  | directive {d : Directive} {p : Preamble} (hin : r.inPreamble = true) (hd : ofLine? l = some d)
      (htake : r.preamble.take honor d.name d.value d.line = some (.ok p)) :
      Turn honor r l ls { r with rest := ls, preamble := p } none
  | refused {d : Directive} {f : Failure} (hin : r.inPreamble = true) (hd : ofLine? l = some d)
      (htake : r.preamble.take honor d.name d.value d.line = some (.error f)) :
      Turn honor r l ls { r with rest := ls, stopped := true } (some (.error f))
  | idle (hin : r.inPreamble = true → ends l = true) (hl : l.isIdle = true) :
      Turn honor r l ls { r with rest := ls, inPreamble := false } none
  | line {line : LogicalLine} {rest : List PhysicalLine} (hin : r.inPreamble = true → ends l = true)
      (hl : l.isIdle = false)
        (hread : LogicalLine.readAt r.preamble.escape l ls = .ok (line, rest)) :
      Turn honor r l ls { r with rest := rest, inPreamble := false } (some (.ok line))
  | failed {f : Failure} (hin : r.inPreamble = true → ends l = true) (hl : l.isIdle = false)
      (hread : LogicalLine.readAt r.preamble.escape l ls = .error f) :
      Turn honor r l ls { r with rest := [], inPreamble := false, stopped := true }
        (some (.error f))

theorem turn_of_pass (hin : r.inPreamble = true → ends l = true) (h : r.pass l ls = (q, y)) :
    Turn honor r l ls q y := by
  rw [pass] at h
  dsimp only at h
  split at h
  · rename_i hidle
    cases h
    exact Turn.idle hin hidle
  · rename_i hidle
    rw [Bool.not_eq_true] at hidle
    split at h
    · rename_i hread
      cases h
      exact Turn.line hin hidle hread
    · rename_i hread
      cases h
      exact Turn.failed hin hidle hread

/-- **A reader that makes a turn deals with its next line** in one of the ways, and was not
stopped. -/
theorem turn_cases (h : r.turn honor = some (q, y)) :
    ∃ l ls, r.rest = l :: ls ∧ r.stopped = false ∧ Turn honor r l ls q y := by
  rw [turn] at h
  rcases hrest : r.rest with _ | ⟨l, ls⟩
  · rw [hrest] at h
    cases h
  · rw [hrest] at h
    dsimp only at h
    split at h
    · cases h
    · rename_i hstopped
      refine ⟨l, ls, rfl, Bool.eq_false_iff.mpr hstopped, ?_⟩
      split at h
      · rename_i hin
        split at h
        · rename_i hblank
          cases h
          exact Turn.blank hin hblank
        · rename_i hblank
          rw [Preamble.takeLine_eq] at h
          cases hd : ofLine? l with
          | none =>
            rw [hd] at h
            refine turn_of_pass (fun _ => ?_) (Option.some.inj h)
            exact Directive.ends_iff.mpr ⟨Bool.eq_false_iff.mpr hblank, hd⟩
          | some d =>
            obtain ⟨-, hname, -⟩ := Directive.ofLine?_eq_some_iff.mp hd
            rw [hd, Option.bind_some] at h
            obtain ⟨x, htake⟩ := Preamble.exists_take honor r.preamble hname
            rw [htake] at h
            cases x with
            | ok p =>
              cases h
              exact Turn.directive hin hd htake
            | error f =>
              cases h
              exact Turn.refused hin hd htake
      · rename_i hin
        exact turn_of_pass (fun htrue => absurd htrue hin) (Option.some.inj h)

/-- A reader that makes no turn was stopped or has no line before it. -/
theorem stopped_of_turn (h : r.turn honor = none) : r.stopped = true ∨ r.rest = [] := by
  rw [turn] at h
  rcases hrest : r.rest with _ | ⟨l, ls⟩
  · exact Or.inr rfl
  · left
    rw [hrest] at h
    by_contra hstopped
    simp only [if_neg hstopped] at h
    split at h
    · split at h
      · cases h
      · split at h <;> cases h
    · cases h

theorem turn_of_stopped (h : r.stopped = true) : r.turn honor = none := by
  rw [turn, h]
  rcases r.rest with _ | ⟨l, ls⟩
  · rfl
  · rfl

/-- Turns one after the other, with what they yield. -/
inductive Reads (honor : Bool) : LineReader → List Item → LineReader → Prop
  | nil (r : LineReader) : Reads honor r [] r
  | cons {r q s : LineReader} {y : Option Item} {ys : List Item} (ht : r.turn honor = some (q, y))
      (hs : Reads honor q ys s) : Reads honor r (y.toList ++ ys) s

/-- A turn leaves fewer lines. -/
theorem Turn.length (h : Turn honor r l ls q y) : q.rest.length ≤ ls.length := by
  cases h with
  | blank hin hl => exact Nat.le_refl _
  | directive hin hd htake => exact Nat.le_refl _
  | refused hin hd htake => exact Nat.le_refl _
  | idle hin hl => exact Nat.le_refl _
  | line hin hl hread => exact LogicalLine.length_of_readAt hread
  | failed hin hl hread => exact Nat.zero_le _

/-- **Every reader comes to an end.** -/
theorem exists_reads (honor : Bool) (r : LineReader) :
    ∃ ys s, Reads honor r ys s ∧ s.turn honor = none := by
  induction hn : r.rest.length using Nat.strong_induction_on generalizing r with
  | _ n ih =>
    cases ht : r.turn honor with
    | none => exact ⟨[], r, Reads.nil r, ht⟩
    | some qy =>
      obtain ⟨q, y⟩ := qy
      obtain ⟨l, ls, hrest, -, hturn⟩ := turn_cases ht
      have hless : q.rest.length < n := by
        have hlength := hturn.length
        rw [← hn, hrest, List.length_cons]
        omega
      obtain ⟨ys, s, hs, hend⟩ := ih _ hless q rfl
      exact ⟨y.toList ++ ys, s, Reads.cons ht hs, hend⟩

/-! ## What is still to come -/

end LineReader

namespace Layout

/-- What a file yields. -/
def items (layout : Layout) : List LineReader.Item :=
  layout.lines.map .ok ++ (layout.failure.map .error).toList

/-- What is read after a preamble. -/
def after : Preamble.Reading → Layout
  | ⟨p, .error f⟩ => ⟨p, [], some f⟩
  | ⟨p, .ok ls⟩ => ⟨p, (LogicalLine.readAll p.escape ls).1, (LogicalLine.readAll p.escape ls).2⟩

theorem read_eq_after (honor : Bool) (ts : List Text) :
    read honor ts = after (Preamble.read honor (PhysicalLine.ofLines ts)) := by
  rw [read]
  rcases Preamble.read honor (PhysicalLine.ofLines ts) with ⟨p, f | ls⟩
  · rfl
  · rfl

end Layout

namespace LineReader

open Directive (ends ofLine?)

variable {honor : Bool} {r q s : LineReader} {l : PhysicalLine} {ls passed : List PhysicalLine}
  {y : Option Item} {ys zs : List Item} {ts : List Text}

/-- What the lines before a reader come to. -/
def outlook (honor : Bool) (r : LineReader) : Layout :=
  if r.stopped then ⟨r.preamble, [], none⟩
  else if r.inPreamble then .after (Preamble.readOn honor r.preamble r.rest)
  else .after ⟨r.preamble, .ok r.rest⟩

theorem outlook_of_preamble (hgo : r.stopped = false) (hin : r.inPreamble = true) :
    r.outlook honor = .after (Preamble.readOn honor r.preamble r.rest) := by
  rw [outlook, hgo, hin, if_neg Bool.false_ne_true, if_pos rfl]

theorem outlook_of_past (hgo : r.stopped = false) (hin : r.inPreamble = false) :
    r.outlook honor = .after ⟨r.preamble, .ok r.rest⟩ := by
  rw [outlook, hgo, hin, if_neg Bool.false_ne_true, if_neg Bool.false_ne_true]

/-- A line that ends the preamble is left for the reading after it. -/
theorem outlook_of_ends (hrest : r.rest = l :: ls) (hgo : r.stopped = false)
    (hin : r.inPreamble = true → ends l = true) :
    r.outlook honor = .after ⟨r.preamble, .ok (l :: ls)⟩ := by
  by_cases htrue : r.inPreamble = true
  · obtain ⟨hblank, hnone⟩ := Directive.ends_iff.mp (hin htrue)
    rw [outlook_of_preamble hgo htrue, hrest, Preamble.readOn_of_none hblank hnone]
  · rw [outlook_of_past hgo (Bool.eq_false_iff.mpr htrue), hrest]

/-- **A turn yields the first of what is still to come.** -/
theorem Turn.outlook (h : Turn honor r l ls q y) (hrest : r.rest = l :: ls)
    (hgo : r.stopped = false) :
    (r.outlook honor).preamble = (q.outlook honor).preamble ∧
      (r.outlook honor).items = y.toList ++ (q.outlook honor).items := by
  cases h with
  | blank hin hl =>
    have hnext : LineReader.outlook honor { r with rest := ls } =
        .after (Preamble.readOn honor r.preamble ls) := outlook_of_preamble hgo hin
    rw [outlook_of_preamble hgo hin, hrest, Preamble.readOn_of_isEmpty hl, hnext]
    exact ⟨rfl, rfl⟩
  | @directive d p hin hd htake =>
    have hnext : LineReader.outlook honor { r with rest := ls, preamble := p } =
        .after (Preamble.readOn honor p ls) := outlook_of_preamble hgo hin
    rw [outlook_of_preamble hgo hin, hrest, Preamble.readOn_of_taken hd htake, hnext]
    exact ⟨rfl, rfl⟩
  | @refused d f hin hd htake =>
    rw [outlook_of_preamble hgo hin, hrest, Preamble.readOn_of_refused hd htake]
    exact ⟨rfl, rfl⟩
  | idle hin hl =>
    have hnext : LineReader.outlook honor { r with rest := ls, inPreamble := false } =
        .after ⟨r.preamble, .ok ls⟩ := outlook_of_past hgo rfl
    rw [outlook_of_ends hrest hgo hin, hnext, Layout.after, LogicalLine.readAll_of_idle hl]
    exact ⟨rfl, rfl⟩
  | @line line rest hin hl hread =>
    have hnext : LineReader.outlook honor { r with rest := rest, inPreamble := false } =
        .after ⟨r.preamble, .ok rest⟩ := outlook_of_past hgo rfl
    rw [outlook_of_ends hrest hgo hin, hnext, Layout.after, LogicalLine.readAll_of_ok hl hread]
    exact ⟨rfl, rfl⟩
  | @failed f hin hl hread =>
    rw [outlook_of_ends hrest hgo hin, Layout.after, LogicalLine.readAll_of_error hl hread]
    exact ⟨rfl, rfl⟩

/-- **Turns yield what was to come, in its order.** -/
theorem Reads.outlook (h : Reads honor r ys s) :
    (r.outlook honor).preamble = (s.outlook honor).preamble ∧
      (r.outlook honor).items = ys ++ (s.outlook honor).items := by
  induction h with
  | nil r => exact ⟨rfl, rfl⟩
  | cons ht _ ih =>
    obtain ⟨l, ls, hrest, hgo, hturn⟩ := turn_cases ht
    obtain ⟨hpreamble, hitems⟩ := hturn.outlook hrest hgo
    exact ⟨hpreamble.trans ih.1, by rw [hitems, ih.2, List.append_assoc]⟩

/-- At the end nothing is to come. -/
theorem outlook_of_turn (h : r.turn honor = none) : r.outlook honor = ⟨r.preamble, [], none⟩ := by
  rw [LineReader.outlook]
  rcases stopped_of_turn h with hstopped | hrest
  · rw [if_pos hstopped]
  · rw [hrest]
    have hnil : Layout.after ⟨r.preamble, .ok []⟩ = ⟨r.preamble, [], none⟩ := by
      rw [Layout.after, LogicalLine.readAll_nil]
    split
    · rfl
    · split
      · exact hnil
      · exact hnil

/-! ## What a reader knows -/

/-- What holds of a reader with some lines behind it that has yielded some items. -/
structure Knows (honor : Bool) (passed : List PhysicalLine) (ys : List Item) (r : LineReader) :
    Prop where
  recorded : r.preamble.Recorded honor (Directive.ofLines passed)
  /-- The preamble is over once a line has ended it. -/
  inPreamble : r.inPreamble = true ↔ ∀ l ∈ passed, ends l = false
  lines : r.inPreamble = true → ∀ line, .ok line ∉ ys
  failed : ∀ f, .error f ∈ ys → r.stopped = true

theorem knows_ofLines (honor : Bool) (ts : List Text) : Knows honor [] [] (ofLines ts) where
  recorded := Preamble.recorded_nil honor
  inPreamble := by simp [ofLines]
  lines := by simp
  failed := by simp

/-- Behind a reader that is past the preamble there is the line that ended it. -/
theorem Knows.past (hr : Knows honor passed ys r) (hin : ¬ r.inPreamble = true) :
    ∃ l ∈ passed, ends l = true := by
  rw [hr.inPreamble] at hin
  by_contra hnone
  refine hin fun l hl => Bool.eq_false_iff.mpr fun hends => ?_
  exact hnone ⟨l, hl, hends⟩

theorem Knows.stopped (hr : Knows honor passed ys r) (hgo : r.stopped = false)
    (hy : ∀ f, .error f ∈ y.toList → q.stopped = true) :
    ∀ f, .error f ∈ ys ++ y.toList → q.stopped = true := by
  intro f hf
  rcases List.mem_append.mp hf with hf | hf
  · have hstopped := hr.failed f hf
    rw [hgo] at hstopped
    cases hstopped
  · exact hy f hf

/-- A line of the preamble goes behind the reader. -/
theorem Knows.within (hr : Knows honor passed ys r) (hgo : r.stopped = false)
    (hin : r.inPreamble = true) (hl : ends l = false) (hq : q.inPreamble = true)
    (hrecorded : q.preamble.Recorded honor (Directive.ofLines passed ++ Directive.ofLines [l]))
    (hy : ∀ line, .ok line ∉ y.toList) (hfailed : ∀ f, .error f ∈ y.toList → q.stopped = true) :
    Knows honor (passed ++ [l]) (ys ++ y.toList) q := by
  have hpassed := hr.inPreamble.mp hin
  refine ⟨?_, ?_, ?_, hr.stopped hgo hfailed⟩
  · rw [Directive.ofLines_append hpassed]
    exact hrecorded
  · rw [List.forall_mem_append, List.forall_mem_singleton]
    exact ⟨fun _ => ⟨hpassed, hl⟩, fun _ => hq⟩
  · intro _ line hline
    rcases List.mem_append.mp hline with hline | hline
    · exact hr.lines hin line hline
    · exact hy line hline

/-- A line that ends the preamble, or stands after its end, goes behind the reader with more
lines. -/
theorem Knows.beyond (hr : Knows honor passed ys r) (hgo : r.stopped = false)
    (hin : r.inPreamble = true → ends l = true) (hq : q.inPreamble = false)
    (hpreamble : q.preamble = r.preamble) (hfailed : ∀ f, .error f ∈ y.toList → q.stopped = true)
    (more : List PhysicalLine) : Knows honor (passed ++ l :: more) (ys ++ y.toList) q := by
  have hends : ∃ k ∈ passed ++ l :: more, ends k = true := by
    by_cases htrue : r.inPreamble = true
    · exact ⟨l, List.mem_append_right _ List.mem_cons_self, hin htrue⟩
    · obtain ⟨k, hk, hends⟩ := hr.past htrue
      exact ⟨k, List.mem_append_left _ hk, hends⟩
  have hsame : Directive.ofLines (passed ++ l :: more) = Directive.ofLines passed := by
    by_cases htrue : r.inPreamble = true
    · rw [Directive.ofLines_append (hr.inPreamble.mp htrue), Directive.ofLines_of_ends (hin htrue),
        List.append_nil]
    · exact Directive.ofLines_append_of_ends (hr.past htrue)
  refine ⟨?_, ?_, ?_, hr.stopped hgo hfailed⟩
  · rw [hsame, hpreamble]
    exact hr.recorded
  · constructor
    · intro htrue
      rw [hq] at htrue
      cases htrue
    · intro hnone
      obtain ⟨k, hk, hends⟩ := hends
      rw [hnone k hk] at hends
      cases hends
  · intro htrue
    rw [hq] at htrue
    cases htrue

/-- **A turn takes its lines behind the reader and adds what they say.** -/
theorem Turn.knows (h : Turn honor r l ls q y) (hr : Knows honor passed ys r)
    (hgo : r.stopped = false) :
    ∃ more, l :: ls = more ++ q.rest ∧ Knows honor (passed ++ more) (ys ++ y.toList) q := by
  cases h with
  | blank hin hl =>
    refine ⟨[l], rfl, hr.within hgo hin (Directive.not_ends_iff.mpr (Or.inl hl)) hin ?_ ?_ ?_⟩
    · rw [Directive.ofLines_of_isEmpty hl, Directive.ofLines_nil, List.append_nil]
      exact hr.recorded
    · simp
    · simp
  | @directive d p hin hd htake =>
    obtain ⟨-, hname, -⟩ := Directive.ofLine?_eq_some_iff.mp hd
    refine ⟨[l], rfl, hr.within hgo hin (Directive.not_ends_iff.mpr (Or.inr ⟨d, hd⟩)) hin ?_ ?_ ?_⟩
    · rw [Directive.ofLines_of_some hd]
      exact hr.recorded.take hname htake
    · simp
    · simp
  | @refused d f hin hd htake =>
    obtain ⟨-, hname, -⟩ := Directive.ofLine?_eq_some_iff.mp hd
    refine ⟨[l], rfl, hr.within hgo hin (Directive.not_ends_iff.mpr (Or.inr ⟨d, hd⟩)) hin ?_ ?_ ?_⟩
    · rw [Directive.ofLines_of_some hd]
      exact hr.recorded.of_escape (Preamble.escape_of_refused hname htake) hr.recorded.choice
        hr.recorded.escape rfl rfl rfl
    · simp
    · simp
  | idle hin hl =>
    refine ⟨[l], rfl, hr.beyond hgo hin ?_ ?_ ?_ []⟩
    · rfl
    · rfl
    · simp
  | @line line rest hin hl hread =>
    obtain ⟨taken, rfl, -⟩ := LogicalLine.readAt_extent hread
    refine ⟨l :: taken, rfl, hr.beyond hgo hin ?_ ?_ ?_ taken⟩
    · rfl
    · rfl
    · simp
  | @failed f hin hl hread =>
    refine ⟨l :: ls, (List.append_nil _).symm, hr.beyond hgo hin ?_ ?_ ?_ ls⟩
    · rfl
    · rfl
    · simp

/-- **Turns take lines behind the reader and add what these say.** -/
theorem Reads.knows (h : Reads honor r zs s) (hr : Knows honor passed ys r) :
    ∃ more, r.rest = more ++ s.rest ∧ Knows honor (passed ++ more) (ys ++ zs) s := by
  induction h generalizing passed ys with
  | nil r => exact ⟨[], rfl, by rw [List.append_nil, List.append_nil]; exact hr⟩
  | cons ht _ ih =>
    obtain ⟨l, ls, hrest, hgo, hturn⟩ := turn_cases ht
    obtain ⟨first, hfirst, hq⟩ := hturn.knows hr hgo
    obtain ⟨more, hmore, hs⟩ := ih hq
    refine ⟨first ++ more, ?_, ?_⟩
    · rw [hrest, hfirst, hmore, List.append_assoc]
    · rw [← List.append_assoc, ← List.append_assoc]
      exact hs

/-- Past the preamble a turn leaves it alone. -/
theorem Turn.preamble (h : Turn honor r l ls q y) (hin : r.inPreamble = false) :
    q.preamble = r.preamble ∧ q.inPreamble = false := by
  have hpast : ¬ r.inPreamble = true := by
    rw [hin]
    exact Bool.false_ne_true
  cases h with
  | blank htrue hl => exact absurd htrue hpast
  | directive htrue hd htake => exact absurd htrue hpast
  | refused htrue hd htake => exact absurd htrue hpast
  | idle hends hl => exact ⟨rfl, rfl⟩
  | line hends hl hread => exact ⟨rfl, rfl⟩
  | failed hends hl hread => exact ⟨rfl, rfl⟩

/-- **Past the preamble nothing changes it.** -/
theorem Reads.preamble (h : Reads honor r ys s) (hin : r.inPreamble = false) :
    s.preamble = r.preamble := by
  induction h with
  | nil r => rfl
  | cons ht _ ih =>
    obtain ⟨l, ls, -, -, hturn⟩ := turn_cases ht
    obtain ⟨hsame, hpast⟩ := hturn.preamble hin
    rw [ih hpast, hsame]

/-- A reader that is stopped stays where it is. -/
theorem Reads.of_stopped (h : Reads honor r zs s) (hstopped : r.stopped = true) :
    zs = [] ∧ s = r := by
  cases h with
  | nil => exact ⟨rfl, rfl⟩
  | cons ht hs =>
    rw [turn_of_stopped hstopped] at ht
    cases ht

/-- **The reading of a file comes to its end**, and what is yielded until then is what the file is
read as. -/
theorem Reads.exists_end (h : Reads honor (ofLines ts) ys r) :
    ∃ zs s, Reads honor r zs s ∧ s.turn honor = none ∧
      s.preamble = (Layout.read honor ts).preamble ∧ ys ++ zs = (Layout.read honor ts).items := by
  obtain ⟨zs, s, hzs, hend⟩ := exists_reads honor r
  have hstart : (ofLines ts).outlook honor = Layout.read honor ts := by
    rw [Layout.read_eq_after]
    exact outlook_of_preamble rfl rfl
  obtain ⟨hpreamble, hitems⟩ := h.outlook
  obtain ⟨hpreamble', hitems'⟩ := hzs.outlook
  rw [hstart] at hpreamble hitems
  rw [outlook_of_turn hend] at hpreamble' hitems'
  refine ⟨zs, s, hzs, hend, (hpreamble.trans hpreamble').symm, ?_⟩
  rw [hitems, hitems']
  exact congrArg (ys ++ ·) (List.append_nil zs).symm

theorem isEmpty_of_isComment (h : l.isComment = true) : l.isEmpty = false := by
  rw [PhysicalLine.isComment, beq_iff_eq] at h
  rw [PhysicalLine.isEmpty]
  cases ht : l.text.trim with
  | nil =>
    rw [ht] at h
    cases h
  | cons c t => rfl

/-- **What a reader knows of the directives**, wherever it stands among the lines of a file and
whatever it has yielded so far.

1. Behind the reader are the lines that it has dealt with.
2. The escape character is a backslash or a backtick.  If the escape directive is not honoured, it
   is a backslash; if it is, it is the one that was recorded, or a backslash if none was.
3. Once a logical line was yielded, or a comment that is no directive is behind the reader, the
   escape character, the directives and the warnings stay as they are.
4. The frontend and the checks are those of the first directives of their names behind the reader.
5. There are as many warnings about repeated directives as there are further directives of these
   names.
6. After a failure there is nothing more.
7. The reading comes to its end, and what is yielded until then is what the file is read as,
   with the same preamble. -/
theorem directives_of_reads (h : Reads honor (ofLines ts) ys r) :
    ∃ passed, PhysicalLine.ofLines ts = passed ++ r.rest ∧
      let ds := Directive.ofLines passed
      let p := r.preamble
      p.escape ∈ escapeChoices ∧ (honor = false → p.escape = defaultEscape) ∧
      (honor = true → p.escape = p.directives.escape.getD defaultEscape) ∧
      ((∃ line, .ok line ∈ ys) ∨ (∃ l ∈ passed, l.isComment = true ∧ ofLine? l = none) →
        ∀ zs s, Reads honor r zs s → s.preamble = p) ∧
      p.directives.frontend = Directive.first? "syntax".toList ds ∧
      p.directives.check = Directive.first? "check".toList ds ∧
      p.duplicates = Directive.further "syntax".toList ds + Directive.further "check".toList ds ∧
      ((∃ f, .error f ∈ ys) → ∀ zs s, Reads honor r zs s → zs = [] ∧ s = r) ∧
      ∃ zs s, Reads honor r zs s ∧ s.turn honor = none ∧
        s.preamble = (Layout.read honor ts).preamble ∧ ys ++ zs = (Layout.read honor ts).items := by
  obtain ⟨passed, hfile, hknows⟩ := h.knows (knows_ofLines honor ts)
  rw [List.nil_append, List.nil_append] at hknows
  have hrecorded := hknows.recorded
  refine ⟨passed, hfile, hrecorded.choice, ?_, ?_, ?_, hrecorded.frontend, hrecorded.check,
    hrecorded.duplicates, ?_, ?_⟩
  · rintro rfl
    exact hrecorded.escape
  · rintro rfl
    exact hrecorded.escape
  · intro hover zs s hzs
    refine hzs.preamble (Bool.eq_false_iff.mpr fun hin => ?_)
    rcases hover with ⟨line, hline⟩ | ⟨l, hl, hcomment, hnone⟩
    · exact hknows.lines hin line hline
    · have hends : ends l = true := Directive.ends_iff.mpr ⟨isEmpty_of_isComment hcomment, hnone⟩
      rw [hknows.inPreamble.mp hin l hl] at hends
      cases hends
  · rintro ⟨f, hf⟩ zs s hzs
    exact hzs.of_stopped (hknows.failed f hf)
  · exact h.exists_end

/-- A turn that yields nothing. -/
theorem Reads.quiet (ht : r.turn honor = some (q, none)) (hs : Reads honor q ys s) :
    Reads honor r ys s :=
  Reads.cons ht hs

/-- A directive that is repeated, and one that comes after a comment. -/
theorem directives_of_reads_repeated :
    let ts :=
      ["# syntax=a".toList, "#Syntax = b".toList, [], "# note".toList, "# escape=\x60".toList,
      "FROM scratch".toList]
    let p : Preamble := { directives := { frontend := some "a".toList }
                          warnings := [Preamble.repeated "syntax".toList 2] }
    let r : LineReader :=
      { rest := (PhysicalLine.ofLines ts).drop 4, preamble := p, inPreamble := false }
    let passed := (PhysicalLine.ofLines ts).take 4
    Reads true (ofLines ts) [] r ∧
      some "a".toList = Directive.first? "syntax".toList (Directive.ofLines passed) ∧
      1 = Directive.further "syntax".toList (Directive.ofLines passed) +
        Directive.further "check".toList (Directive.ofLines passed) ∧
      ∀ zs s, Reads true r zs s → s.preamble = p := by
  intro ts p r passed
  have hreads : Reads true (ofLines ts) [] r :=
    .quiet rfl (.quiet rfl (.quiet rfl (.quiet rfl (.nil r))))
  obtain ⟨behind, hfile, -, -, -, hover, hfrontend, -, hduplicates, -, -⟩ :=
    directives_of_reads hreads
  have hbehind : behind = passed :=
    List.append_cancel_right (hfile.symm.trans (List.take_append_drop 4 _).symm)
  rw [hbehind] at hover hfrontend hduplicates
  exact ⟨hreads, hfrontend, hduplicates, hover (Or.inr ⟨⟨4, "# note".toList⟩, by decide +kernel⟩)⟩

end LineReader

end Containerfile
