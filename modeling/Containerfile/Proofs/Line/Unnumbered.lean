import Containerfile.Line.Logical

/-! # Line numbers do not matter

Numbers only ever end up in spans: two runs of lines with the same texts are read into the same
logical lines, spans aside.  `unnumbered` puts the number 0 everywhere, and each step of reading a
logical line can be done before or after it. -/
namespace Containerfile

/-- A line without its number. -/
def PhysicalLine.unnumbered (l : PhysicalLine) : PhysicalLine := ⟨0, l.text⟩

/-- A heredoc without its span. -/
def Heredoc.unnumbered (h : Heredoc) : Heredoc := { h with lines := .single 0 }

/-- A logical line without its spans. -/
def LogicalLine.unnumbered (l : LogicalLine) : LogicalLine :=
  { l with lines := .single 0, heredocs := l.heredocs.map Heredoc.unnumbered }

/-- The texts of some lines without their numbers. -/
def PhysicalLine.unnumberedAll (ls : List PhysicalLine) : List PhysicalLine :=
  ls.map PhysicalLine.unnumbered

open PhysicalLine

namespace PhysicalLine

theorem unnumberedAll_eq_iff {ls ls' : List PhysicalLine} :
    unnumberedAll ls = unnumberedAll ls' ↔ ls.map text = ls'.map text := by
  have htexts : ∀ ks : List PhysicalLine, unnumberedAll ks = (ks.map text).map fun t => ⟨0, t⟩ :=
    fun ks => by rw [unnumberedAll, List.map_map]; rfl
  have hback : ∀ ks : List PhysicalLine, (unnumberedAll ks).map text = ks.map text :=
    fun ks => by rw [unnumberedAll, List.map_map]; rfl
  constructor
  · intro h
    rw [← hback ls, ← hback ls', h]
  · intro h
    rw [htexts, htexts, h]

theorem unnumberedAll_append (ls ls' : List PhysicalLine) :
    unnumberedAll (ls ++ ls') = unnumberedAll ls ++ unnumberedAll ls' := List.map_append

theorem getLast?_unnumberedAll (ls : List PhysicalLine) :
    (unnumberedAll ls).getLast? = ls.getLast?.map unnumbered := List.getLast?_map

/-- The last of some lines, or else the first line, has no number once all have none. -/
theorem number_getLast?_unnumberedAll (first : PhysicalLine) (ls : List PhysicalLine) :
    ((unnumberedAll ls).getLast?.getD first.unnumbered).number = 0 := by
  rw [getLast?_unnumberedAll]
  cases ls.getLast? with
  | none => rfl
  | some l => rfl

end PhysicalLine

/-! ## Continuations -/

/-- Joined lines without their numbers. -/
def Joined.unnumbered (j : Joined) : Joined :=
  ⟨j.text, unnumberedAll j.joined, unnumberedAll j.rest⟩

theorem Joined.of_unnumberedAll (escape : Char) (t : Text) (ls : List PhysicalLine) :
    Joined.of escape t (unnumberedAll ls) = (Joined.of escape t ls).unnumbered := by
  induction ls generalizing t with
  | nil => rfl
  | cons l ls ih =>
    rw [unnumberedAll, List.map_cons, Joined.of, Joined.of]
    cases hs : stripContinuation? escape t with
    | none => rfl
    | some body =>
      have hidle : l.unnumbered.isIdle = l.isIdle := rfl
      simp only [hidle]
      by_cases hl : l.isIdle = true
      · rw [if_pos hl, if_pos hl, ← unnumberedAll, ih t]
        rfl
      · rw [if_neg hl, if_neg hl, ← unnumberedAll]
        have hl' : Joined.of escape l.unnumbered.text (unnumberedAll ls) =
            (Joined.of escape l.text ls).unnumbered := ih l.text
        rw [hl']
        rfl

/-! ## Heredocs -/

theorem HeredocMarker.capture_unnumberedAll (m : HeredocMarker) (ls : List PhysicalLine) :
    m.capture (unnumberedAll ls) =
      (m.capture ls).map fun r => (unnumberedAll r.1, r.2.1.unnumbered, unnumberedAll r.2.2) := by
  induction ls with
  | nil => rfl
  | cons l ls ih =>
    rw [unnumberedAll, List.map_cons, capture, capture, ← unnumberedAll, ih]
    have htext : l.unnumbered.text = l.text := rfl
    rw [htext]
    by_cases hl : m.isTerminator l.text = true
    · rw [if_pos hl, if_pos hl]
      rfl
    · rw [if_neg hl, if_neg hl]
      cases m.capture ls with
      | none => rfl
      | some r => rfl

theorem HeredocMarker.heredoc_unnumbered (m : HeredocMarker) (body : List PhysicalLine)
    (opening : Nat) (terminator : PhysicalLine) :
    m.heredoc (unnumberedAll body) 0 terminator.unnumbered =
      (m.heredoc body opening terminator).unnumbered := by
  rw [heredoc, heredoc, Heredoc.unnumbered, unnumberedAll, List.map_map]
  rfl

/-- Captured heredocs without their numbers. -/
def Captured.unnumbered (c : Captured) : Captured :=
  ⟨c.heredocs.map Heredoc.unnumbered, unnumberedAll c.covered, unnumberedAll c.rest⟩

theorem Captured.of_unnumberedAll (opening : Nat) (ls : List PhysicalLine)
    (ms : List HeredocMarker) :
    Captured.of 0 (unnumberedAll ls) ms = (Captured.of opening ls ms).map Captured.unnumbered := by
  induction ms generalizing opening ls with
  | nil => rfl
  | cons m ms ih =>
    rw [Captured.of, Captured.of, m.capture_unnumberedAll]
    cases hc : m.capture ls with
    | none => rfl
    | some r =>
      obtain ⟨body, terminator, rest⟩ := r
      have hnumber : terminator.unnumbered.number = 0 := rfl
      simp only [Option.map_some, hnumber]
      rw [ih terminator.number rest, m.heredoc_unnumbered body opening terminator]
      cases Captured.of terminator.number rest ms with
      | error e => rfl
      | ok c =>
        have hcover : unnumberedAll (body ++ terminator :: c.covered) =
            unnumberedAll body ++ terminator.unnumbered :: unnumberedAll c.covered := by
          rw [unnumberedAll_append]
          rfl
        show Except.ok (Captured.mk _ _ _) =
          Except.ok (Captured.mk _ (unnumberedAll (body ++ terminator :: c.covered)) _)
        rw [hcover]
        rfl

/-! ## Logical lines -/

namespace LogicalLine

/-- **Reading a logical line commutes with leaving out the numbers.** -/
theorem readAt_unnumberedAll (escape : Char) (first : PhysicalLine) (ls : List PhysicalLine) :
    (readAt escape first.unnumbered (unnumberedAll ls)).toOption =
      (readAt escape first ls).toOption.map fun r => (r.1.unnumbered, unnumberedAll r.2) := by
  have hj : Joined.of escape first.unnumbered.text (unnumberedAll ls) =
      (Joined.of escape first.text ls).unnumbered := Joined.of_unnumberedAll ..
  unfold readAt
  rw [hj]
  generalize Joined.of escape first.text ls = j
  have hlast : (j.unnumbered.joined.getLast?.getD first.unnumbered).number = 0 :=
    number_getLast?_unnumberedAll first j.joined
  have htext : j.unnumbered.text = j.text := rfl
  dsimp only
  rw [hlast, htext]
  generalize (if opensHeredocs j.text.trim = true then HeredocMarker.all escape j.text.trim
    else []) = markers
  have hc := Captured.of_unnumberedAll (j.joined.getLast?.getD first).number j.rest markers
  have hrest : j.unnumbered.rest = unnumberedAll j.rest := rfl
  rw [hrest, hc]
  cases Captured.of (j.joined.getLast?.getD first).number j.rest markers with
  | error m => rfl
  | ok c =>
    have hcover : first.unnumbered :: j.unnumbered.joined ++ c.unnumbered.covered =
        unnumberedAll (first :: j.joined ++ c.covered) := by
      rw [unnumberedAll_append]
      rfl
    simp only [Except.map]
    rw [hcover, number_getLast?_unnumberedAll]
    simp only [Except.toOption, Option.map_some, unnumbered, unnumberedAll, List.map_map]
    rfl

/-- Lines with the same texts are read into the same logical line, spans aside. -/
theorem readAt_of_texts {escape : Char} {first first' : PhysicalLine}
    {ls ls' rest : List PhysicalLine} {l : LogicalLine} (hfirst : first.text = first'.text)
    (hls : ls.map PhysicalLine.text = ls'.map PhysicalLine.text)
    (h : readAt escape first ls = .ok (l, rest)) :
    ∃ l' rest', readAt escape first' ls' = .ok (l', rest') ∧ l'.unnumbered = l.unnumbered ∧
      rest'.map PhysicalLine.text = rest.map PhysicalLine.text := by
  have hfirst' : first.unnumbered = first'.unnumbered := congrArg (PhysicalLine.mk 0) hfirst
  have hu := readAt_unnumberedAll escape first ls
  have hu' := readAt_unnumberedAll escape first' ls'
  rw [h, hfirst', unnumberedAll_eq_iff.mpr hls, hu'] at hu
  cases hr : readAt escape first' ls' with
  | error f =>
    rw [hr] at hu
    cases hu
  | ok r =>
    rw [hr] at hu
    obtain ⟨hl, hrest⟩ := Prod.mk.inj (Option.some.inj hu)
    exact ⟨r.1, r.2, rfl, hl, unnumberedAll_eq_iff.mp hrest⟩

/-- Lines with the same texts are taken as a whole or not. -/
theorem readAt_all_of_texts {escape : Char} {first first' : PhysicalLine}
    {ls ls' : List PhysicalLine} {l : LogicalLine} (hfirst : first.text = first'.text)
    (hls : ls.map PhysicalLine.text = ls'.map PhysicalLine.text)
    (h : readAt escape first ls = .ok (l, [])) :
    ∃ l', readAt escape first' ls' = .ok (l', []) ∧ l'.unnumbered = l.unnumbered := by
  obtain ⟨l', rest', hl', hsame, hnone⟩ := readAt_of_texts hfirst hls h
  rw [List.map_nil, List.map_eq_nil_iff] at hnone
  rw [hnone] at hl'
  exact ⟨l', hl', hsame⟩

end LogicalLine

end Containerfile
