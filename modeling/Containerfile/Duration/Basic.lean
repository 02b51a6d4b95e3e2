import Containerfile.Text.Basic

/-! # Durations

Whole seconds and a rest of less than a second in nanoseconds. -/
namespace Containerfile

/-- A length of time. -/
structure Duration where
  seconds : Nat
  nanos : Nat
  nanos_lt : nanos < 1000000000 := by decide
  deriving DecidableEq, Repr

namespace Duration

/-- No time. -/
def zero : Duration := ⟨0, 0, by decide⟩

/-- Seconds and nanoseconds, whole seconds of the latter carried over. -/
def ofParts (seconds nanos : Nat) : Duration :=
  ⟨seconds + nanos / 1000000000, nanos % 1000000000, Nat.mod_lt _ (by decide)⟩

/-- The duration in nanoseconds. -/
def totalNanos (d : Duration) : Nat := d.seconds * 1000000000 + d.nanos

/-- The duration in the largest of seconds, milliseconds and nanoseconds that leaves no rest. -/
def render (d : Duration) : Text :=
  if d.nanos = 0 then Nat.toDigits 10 d.seconds ++ ['s']
  else if d.nanos % 1000000 = 0 then Nat.toDigits 10 (d.totalNanos / 1000000) ++ ['m', 's']
  else Nat.toDigits 10 d.totalNanos ++ ['n', 's']

example : (ofParts 90 0).render = "90s".toList := by cbv

example : (ofParts 1 1500000).render = "1001500000ns".toList := by cbv

end Duration

end Containerfile
