import Containerfile.Line.Logical
import Containerfile.Proofs.Line.Preamble

/-! # The directives of a file

The preamble of a file is a list of directives, each on a line of its own, with empty lines between
them.  They are read in their order up to the first one that is refused, and only an escape
directive can be refused.  What is known after them depends on the names and values alone; a name
that was read before is warned about.

`Preamble.Knows` ties a preamble to the names that were read, `Preamble.take_of_knows` is the step,
and `Preamble.warnings_readOn` follows from it for all lines.

Main statement: `Layout.warnings_read`. -/
namespace Containerfile

/-- A directive, its name in small letters, with the number of its line. -/
structure Directive where
  name : Text
  value : Text
  line : Nat
  deriving DecidableEq, Repr

namespace Directive

/-- The names of directives. -/
def names : List Text := ["escape".toList, "syntax".toList, "check".toList]

/-- The directive on a line, if the line is one. -/
def ofLine? (l : PhysicalLine) : Option Directive :=
  (Preamble.splitDirective l.text.trim).bind fun d =>
    if names.contains d.1 then some ⟨d.1, d.2, l.number⟩ else none

/-- The directives of a file, which stand before the first line that is neither empty nor a
directive. -/
def ofLines (ls : List PhysicalLine) : List Directive :=
  (ls.takeWhile fun l => l.isEmpty || (ofLine? l).isSome).filterMap ofLine?

/-- Whether a directive is refused after those of some names.  An escape directive is, if there was
one before it, and if it is honoured and its value is no escape character. -/
def refused (honor : Bool) (before : List Text) (d : Directive) : Bool :=
  d.name == "escape".toList &&
    (before.contains d.name || honor && (Preamble.chosenEscape? d.value).isNone)

/-- The directives that are read after those of some names: all before the first one that is
refused. -/
def taken (honor : Bool) (before : List Text) : List Directive → List Directive
  | [] => []
  | d :: ds => if refused honor before d then [] else d :: taken honor (d.name :: before) ds

/-- The warning about a directive after those of some names, if its name is one of them. -/
def repeat? (before : List Text) (d : Directive) : Option Diagnostic :=
  if before.contains d.name then some (Preamble.repeated d.name d.line) else none

/-- The warnings about directives that are repeated, after those of some names. -/
def repeats (before : List Text) : List Directive → List Diagnostic
  | [] => []
  | d :: ds => (repeat? before d).toList ++ repeats (d.name :: before) ds

end Directive

namespace Preamble

open Directive

variable {honor : Bool} {p q : Preamble} {before : List Text} {d : Directive} {l : PhysicalLine}
  {ls : List PhysicalLine}

/-! ## One directive -/

/-- What a preamble holds after the directives of some names. -/
structure Knows (p : Preamble) (before : List Text) : Prop where
  escape : p.directives.escape.isSome = before.contains "escape".toList
  frontend : p.directives.frontend.isSome = before.contains "syntax".toList
  check : p.directives.check.isSome = before.contains "check".toList

/-- A name more is known. -/
theorem Knows.cons (hp : Knows p before) {name : Text}
    (hescape : q.directives.escape.isSome = (name == "escape".toList || p.directives.escape.isSome))
    (hfrontend : q.directives.frontend.isSome =
      (name == "syntax".toList || p.directives.frontend.isSome))
    (hcheck : q.directives.check.isSome = (name == "check".toList || p.directives.check.isSome)) :
    Knows q (name :: before) := by
  have hmore : ∀ other, (name :: before).contains other =
      (name == other || before.contains other) := by
    intro other
    rw [List.contains_cons, Bool.beq_comm]
  constructor
  · rw [hmore, hescape, hp.escape]
  · rw [hmore, hfrontend, hp.frontend]
  · rw [hmore, hcheck, hp.check]

/-- **One directive after others** is refused, or adds its name to what is known and
the warning about it. -/
theorem take_of_knows (hp : Knows p before) (hd : d.name ∈ names) :
    (refused honor before d = true ∧ ∃ f, p.take honor d.name d.value d.line = some (.error f)) ∨
      (refused honor before d = false ∧
        ∃ q, p.take honor d.name d.value d.line = some (.ok q) ∧ Knows q (d.name :: before) ∧
          q.warnings = p.warnings ++ (repeat? before d).toList) := by
  obtain ⟨name, value, line⟩ := d
  rcases List.mem_cons.mp hd with rfl | hd
  · have htake : p.take honor "escape".toList value line =
        some (p.takeEscape honor value line) := rfl
    rw [htake, takeEscape_eq, hp.escape]
    by_cases href :
        (before.contains "escape".toList || honor && (chosenEscape? value).isNone) = true
    · left
      exact ⟨href, _, congrArg some (if_pos href)⟩
    · right
      rw [if_neg href]
      refine ⟨Bool.eq_false_iff.mpr href, _, rfl, hp.cons rfl rfl rfl, ?_⟩
      rw [Bool.or_eq_true, not_or] at href
      have hnone : repeat? before ⟨"escape".toList, value, line⟩ = none := if_neg href.1
      rw [hnone]
      exact (List.append_nil _).symm
  · right
    rcases List.mem_pair.mp hd with rfl | rfl
    · refine ⟨rfl, _, rfl, ?_⟩
      rw [repeat?, ← hp.frontend]
      cases hsome : p.directives.frontend.isSome with
      | true => exact ⟨hp.cons rfl hsome rfl, rfl⟩
      | false => exact ⟨hp.cons rfl rfl rfl, (List.append_nil _).symm⟩
    · refine ⟨rfl, _, rfl, ?_⟩
      rw [repeat?, ← hp.check]
      cases hsome : p.directives.check.isSome with
      | true => exact ⟨hp.cons rfl rfl hsome, rfl⟩
      | false => exact ⟨hp.cons rfl rfl rfl, (List.append_nil _).symm⟩

end Preamble

/-! ## The lines of directives -/

namespace Directive

variable {d : Directive} {l : PhysicalLine} {ls : List PhysicalLine}

theorem ofLine?_eq_some_iff :
    ofLine? l = some d ↔ Preamble.splitDirective l.text.trim = some (d.name, d.value) ∧
      d.name ∈ names ∧ d.line = l.number := by
  obtain ⟨name, value, line⟩ := d
  rw [ofLine?, Option.bind_eq_some_iff]
  constructor
  · rintro ⟨⟨name', value'⟩, hsplit, hd⟩
    split at hd
    · rename_i hname
      cases hd
      exact ⟨hsplit, List.contains_iff_mem.mp hname, rfl⟩
    · cases hd
  · rintro ⟨hsplit, hname, rfl⟩
    exact ⟨_, hsplit, if_pos (List.contains_iff_mem.mpr hname)⟩

theorem ofLine?_of_isEmpty (hl : l.isEmpty = true) : ofLine? l = none := by
  rw [PhysicalLine.isEmpty, List.isEmpty_iff] at hl
  rw [ofLine?, hl]
  rfl

theorem ofLines_of_isEmpty (hl : l.isEmpty = true) : ofLines (l :: ls) = ofLines ls := by
  rw [ofLines, List.takeWhile_cons, hl, Bool.true_or, if_pos rfl,
    List.filterMap_cons_none (ofLine?_of_isEmpty hl)]
  rfl

theorem ofLines_of_some (hd : ofLine? l = some d) : ofLines (l :: ls) = d :: ofLines ls := by
  rw [ofLines, List.takeWhile_cons, hd, Option.isSome_some, Bool.or_true, if_pos rfl,
    List.filterMap_cons_some hd]
  rfl

theorem ofLines_of_none (hl : l.isEmpty = false) (hd : ofLine? l = none) :
    ofLines (l :: ls) = [] := by
  rw [ofLines, List.takeWhile_cons, hl, hd]
  rfl

end Directive

namespace Preamble

open Directive

variable {honor : Bool} {p q : Preamble} {before : List Text} {d : Directive} {l : PhysicalLine}
  {ls : List PhysicalLine}

theorem readOn_of_refused (hd : ofLine? l = some d) {f : Failure}
    (htake : p.take honor d.name d.value d.line = some (.error f)) :
    readOn honor p (l :: ls) = ⟨p, .error f⟩ := by
  obtain ⟨hsplit, -, hline⟩ := ofLine?_eq_some_iff.mp hd
  rw [hline] at htake
  rw [readOn, isEmpty_of_split hsplit, if_neg Bool.false_ne_true, hsplit]
  simp only [htake]

theorem readOn_of_taken (hd : ofLine? l = some d)
    (htake : p.take honor d.name d.value d.line = some (.ok q)) :
    readOn honor p (l :: ls) = readOn honor q ls := by
  obtain ⟨hsplit, -, hline⟩ := ofLine?_eq_some_iff.mp hd
  rw [hline] at htake
  exact readOn_of_split hsplit htake

theorem readOn_of_none (hl : l.isEmpty = false) (hd : ofLine? l = none) :
    readOn honor p (l :: ls) = ⟨p, .ok (l :: ls)⟩ := by
  rw [readOn, hl, if_neg Bool.false_ne_true]
  rcases hsplit : splitDirective l.text.trim with _ | ⟨name, value⟩
  · rfl
  · have hname : name ∉ names := by
      intro hname
      have hsome : ofLine? l = some ⟨name, value, l.number⟩ :=
        ofLine?_eq_some_iff.mpr ⟨hsplit, hname, rfl⟩
      rw [hd] at hsome
      cases hsome
    rw [names, List.mem_cons, List.mem_pair, not_or, not_or] at hname
    obtain ⟨hescape, hfrontend, hcheck⟩ := hname
    have htake : p.take honor name value l.number = none := by
      rw [take, if_neg hescape, if_neg hfrontend, if_neg hcheck]
    simp only [htake]

/-- **The warnings of a preamble** are about the directives that are read and repeat a name. -/
theorem warnings_readOn (hp : Knows p before) :
    (readOn honor p ls).preamble.warnings =
      p.warnings ++ repeats before (taken honor before (Directive.ofLines ls)) := by
  induction ls generalizing p before with
  | nil => exact (List.append_nil _).symm
  | cons l ls ih =>
    cases hd : ofLine? l with
    | none =>
      cases hl : l.isEmpty with
      | true => rw [readOn_of_isEmpty hl, ofLines_of_isEmpty hl, ih hp]
      | false =>
        rw [readOn_of_none hl hd, ofLines_of_none hl hd]
        exact (List.append_nil _).symm
    | some d =>
      obtain ⟨-, hname, -⟩ := ofLine?_eq_some_iff.mp hd
      rw [ofLines_of_some hd, taken]
      rcases take_of_knows hp hname with ⟨href, f, htake⟩ | ⟨href, q, htake, hq, hwarnings⟩
      · rw [readOn_of_refused hd htake, href, if_pos rfl]
        exact (List.append_nil _).symm
      · rw [readOn_of_taken hd htake, href, if_neg Bool.false_ne_true, repeats, ← List.append_assoc,
          ← hwarnings]
        exact ih hq

end Preamble

/-- **The warnings about the directives of a file**: one for each that is read and repeats a name,
in the order of the directives. -/
theorem Layout.warnings_read (honor : Bool) (ts : List Text) :
    (Layout.read honor ts).preamble.warnings =
      Directive.repeats []
        (Directive.taken honor [] (Directive.ofLines (PhysicalLine.ofLines ts))) := by
  have hpreamble : (Layout.read honor ts).preamble =
      (Preamble.read honor (PhysicalLine.ofLines ts)).preamble := by
    rw [Layout.read]
    rcases Preamble.read honor (PhysicalLine.ofLines ts) with ⟨p, f | ls⟩
    · rfl
    · rfl
  have hnil : Preamble.Knows {} [] := ⟨rfl, rfl, rfl⟩
  rw [hpreamble]
  exact Preamble.warnings_readOn hnil

end Containerfile
