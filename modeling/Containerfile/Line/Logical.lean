import Containerfile.Keyword
import Containerfile.Line.Heredoc
import Containerfile.Line.Preamble

/-! # Logical lines

An instruction with its heredocs.  Its text may go on over several physical lines: a line that ends
in the escape character, blanks after it aside, is continued by the next line that is neither empty
nor a comment.  The bodies of its heredocs follow in the order of their markers. -/
namespace Containerfile

/-- An instruction as it stands in a file. -/
structure LogicalLine where
  lines : LineSpan
  /-- The physical lines as they are, bodies of heredocs included, with line feeds between. -/
  raw : Text
  /-- The text of the instruction, continuations joined. -/
  text : Text
  heredocs : List Heredoc
  deriving DecidableEq, Repr

/-- The line without the escape character at its end, if it is continued. -/
def stripContinuation? (escape : Char) (t : Text) : Option Text :=
  let body := t.dropEndWhile fun c => c == ' ' || c == '\t'
  if body.getLast? = some escape then some body.dropLast else none

/-- Physical lines joined into the text of one instruction: the text, the lines that were joined to
the first one, and the lines after them. -/
structure Joined where
  text : Text
  joined : List PhysicalLine
  rest : List PhysicalLine

/-- Joins lines to a first line with the text `t`, as long as the text goes on.  Idle lines between
are dropped. -/
def Joined.of (escape : Char) (t : Text) : List PhysicalLine → Joined
  | [] => ⟨(stripContinuation? escape t).getD t, [], []⟩
  | l :: ls =>
    match stripContinuation? escape t with
    | none => ⟨t, [], l :: ls⟩
    | some body =>
      if l.isIdle then
        let j := Joined.of escape t ls
        { j with joined := l :: j.joined }
      else
        let j := Joined.of escape l.text ls
        { j with text := body ++ j.text, joined := l :: j.joined }

/-- Whether the instruction, or the trigger of an ONBUILD, may have heredocs. -/
def opensHeredocs (t : Text) : Bool :=
  let (first, rest) := Text.firstWord t
  let word := if Text.sameName first "ONBUILD".toList then (Text.firstWord rest).1 else first
  ["RUN", "COPY", "ADD"].any fun k => Text.sameName word k.toList

/-- Heredocs captured one after the other: the heredocs, the lines that they cover and
the lines after them. -/
structure Captured where
  heredocs : List Heredoc
  covered : List PhysicalLine
  rest : List PhysicalLine

/-- Captures the heredocs of markers from the lines after the line `opening`, or yields the marker
whose terminator is missing. -/
def Captured.of (opening : Nat) (ls : List PhysicalLine) :
    List HeredocMarker → Except HeredocMarker Captured
  | [] => .ok ⟨[], [], ls⟩
  | m :: ms =>
    match m.capture ls with
    | none => .error m
    | some (body, terminator, rest) => do
      let c ← Captured.of terminator.number rest ms
      return ⟨m.heredoc body opening terminator :: c.heredocs, body ++ terminator :: c.covered,
        c.rest⟩

namespace LogicalLine

/-- Reads the logical line that starts at `first`; yields it with the lines after it. -/
def readAt (escape : Char) (first : PhysicalLine) (ls : List PhysicalLine) :
    Except Failure (LogicalLine × List PhysicalLine) :=
  let j := Joined.of escape first.text ls
  let last := (j.joined.getLast?.getD first).number
  let text := j.text.trim
  -- elsewhere angle brackets are part of the arguments
  let markers := if opensHeredocs text then HeredocMarker.all escape text else []
  match Captured.of last j.rest markers with
  | .error m => .error (.unterminatedHeredoc m.delimiter (.between first.number last))
  | .ok c =>
    let covered := first :: j.joined ++ c.covered
    .ok ({ lines := .between first.number (covered.getLast?.getD first).number
           raw := Text.join ['\n'] (covered.map PhysicalLine.text)
           text := text
           heredocs := c.heredocs }, c.rest)

theorem length_rest_joined (escape : Char) (t : Text) (ls : List PhysicalLine) :
    (Joined.of escape t ls).rest.length ≤ ls.length := by
  induction ls generalizing t with
  | nil => simp [Joined.of]
  | cons l ls ih =>
    simp only [Joined.of]
    split
    · simp
    · split
      · exact Nat.le_succ_of_le (ih t)
      · exact Nat.le_succ_of_le (ih l.text)

theorem length_of_capture {m : HeredocMarker} {ls body rest : List PhysicalLine}
    {terminator : PhysicalLine} (h : m.capture ls = some (body, terminator, rest)) :
    rest.length ≤ ls.length := by
  induction ls generalizing body with
  | nil => simp [HeredocMarker.capture] at h
  | cons l ls ih =>
    simp only [HeredocMarker.capture] at h
    split at h
    · cases h; simp
    · obtain ⟨⟨b, t, r⟩, hr, he⟩ := Option.map_eq_some_iff.1 h
      cases he
      exact Nat.le_succ_of_le (ih hr)

theorem length_rest_captured {opening : Nat} {ls : List PhysicalLine} {ms : List HeredocMarker}
    {c : Captured} (h : Captured.of opening ls ms = .ok c) : c.rest.length ≤ ls.length := by
  induction ms generalizing opening ls c with
  | nil => cases h; simp
  | cons m ms ih =>
    simp only [Captured.of] at h
    split at h
    · cases h
    · rename_i body terminator rest hc
      cases hr : Captured.of terminator.number rest ms with
      | error e => rw [hr] at h; cases h
      | ok d =>
        rw [hr] at h
        cases h
        exact Nat.le_trans (ih (c := d) hr) (length_of_capture hc)

theorem length_of_readAt {escape : Char} {first : PhysicalLine} {ls rest : List PhysicalLine}
    {line : LogicalLine} (h : readAt escape first ls = .ok (line, rest)) :
    rest.length ≤ ls.length := by
  simp only [readAt] at h
  split at h
  · cases h
  · rename_i c hc
    cases h
    exact Nat.le_trans (length_rest_captured hc) (length_rest_joined ..)

set_option linter.unusedVariables false in
/-- Reads all logical lines; idle lines between them are dropped.  A failure ends the reading. -/
def readAll (escape : Char) (ls : List PhysicalLine) : List LogicalLine × Option Failure :=
  match ls with
  | [] => ([], none)
  | l :: ls =>
    if l.isIdle then readAll escape ls
    else
      match h : readAt escape l ls with
      | .error f => ([], some f)
      | .ok (line, rest) =>
        let (lines, failure) := readAll escape rest
        (line :: lines, failure)
termination_by ls.length
decreasing_by
  · simp
  · have := length_of_readAt h
    simp only [List.length_cons]
    omega

end LogicalLine

/-- A comment between continued lines is dropped. -/
example : ((LogicalLine.readAll '\\' (PhysicalLine.ofLines
    ["RUN a \\".toList, "# c".toList, " b".toList])).1.map LogicalLine.text) =
    ["RUN a  b".toList] := by
  decide +kernel

/-- A file in logical lines: what the preamble says, the lines after it and the failure that ended
the reading, if one did. -/
structure Layout where
  preamble : Preamble
  lines : List LogicalLine
  failure : Option Failure
  deriving DecidableEq, Repr

/-- Reads the lines of a file. -/
def Layout.read (honor : Bool) (ts : List Text) : Layout :=
  match Preamble.read honor (PhysicalLine.ofLines ts) with
  | ⟨p, .error f⟩ => ⟨p, [], some f⟩
  | ⟨p, .ok ls⟩ =>
    let (lines, failure) := LogicalLine.readAll p.escape ls
    ⟨p, lines, failure⟩

end Containerfile
