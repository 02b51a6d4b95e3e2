/-! # Line spans

The physical lines that a finding or an instruction covers, numbered from 1. -/
namespace Containerfile

/-- A run of physical lines, both ends included. -/
structure LineSpan where
  first : Nat
  last : Nat
  ordered : first ≤ last := by omega
  deriving DecidableEq, Repr

namespace LineSpan

/-- The span between two lines; an end before the start counts as the start. -/
def between (first last : Nat) : LineSpan := ⟨first, max last first, Nat.le_max_right ..⟩

/-- The span of one line. -/
def single (line : Nat) : LineSpan := ⟨line, line, Nat.le_refl _⟩

/-- The smallest span that covers two spans. -/
def merge (a b : LineSpan) : LineSpan :=
  ⟨min a.first b.first, max a.last b.last, by have := a.ordered; omega⟩

/-- Whether a line lies in the span. -/
def contains (s : LineSpan) (line : Nat) : Bool := decide (s.first ≤ line ∧ line ≤ s.last)

/-- The wording of a span in a message. -/
def render (s : LineSpan) : String :=
  if s.first = s.last then s!"line {s.first}" else s!"lines {s.first}-{s.last}"

end LineSpan

end Containerfile
