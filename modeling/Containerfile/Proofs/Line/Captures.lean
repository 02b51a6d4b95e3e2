import Containerfile.Proofs.Line.Accounting

/-! # Captured heredocs

A heredoc is captured for a marker if its terminator is found.  That happens for one marker after
the other, so some heredocs of a logical line may be captured before one turns out to have no
terminator, and then there is no logical line.  `Heredoc.captured` lists what is captured for the
markers of a line, and `LogicalLine.Captures` says where in a file that happens.

A heredoc that is captured stands between the line before it and its terminator, and what is
captured later stands behind that (`LogicalLine.Captures.bounds`).  All heredocs of the logical
lines of a file are captured in it (`Layout.captures_of_mem`). -/
namespace Containerfile

open PhysicalLine

/-- The heredocs that are captured for markers one after the other, up to the first marker without a
terminator. -/
def Heredoc.captured (opening : Nat) (ls : List PhysicalLine) : List HeredocMarker → List Heredoc
  | [] => []
  | m :: ms =>
    match m.capture ls with
    | none => []
    | some (body, terminator, rest) =>
      m.heredoc body opening terminator :: captured terminator.number rest ms

/-- The heredocs that are captured for the logical line that starts at `first`. -/
def LogicalLine.capturedAt (escape : Char) (first : PhysicalLine) (ls : List PhysicalLine) :
    List Heredoc :=
  let j := Joined.of escape first.text ls
  Heredoc.captured (lastNumber first j) j.rest (markers escape j.text.trim)

/-- Whether a heredoc is captured where some lines are read into logical lines. -/
inductive LogicalLine.Captures (escape : Char) (x : Heredoc) : List PhysicalLine → Prop
  | idle {l : PhysicalLine} {ls : List PhysicalLine} (hl : l.isIdle = true)
      (h : Captures escape x ls) : Captures escape x (l :: ls)
  | here {l : PhysicalLine} {ls : List PhysicalLine} (hl : l.isIdle = false)
      (hx : x ∈ capturedAt escape l ls) : Captures escape x (l :: ls)
  | later {l : PhysicalLine} {ls rest : List PhysicalLine} {line : LogicalLine}
      (hl : l.isIdle = false) (hread : readAt escape l ls = .ok (line, rest))
      (h : Captures escape x rest) : Captures escape x (l :: ls)

/-- Whether a heredoc is captured in a file. -/
def Layout.Captures (honor : Bool) (ts : List Text) (x : Heredoc) : Prop :=
  ∃ p ls, Preamble.read honor (PhysicalLine.ofLines ts) = ⟨p, .ok ls⟩ ∧
    LogicalLine.Captures p.escape x ls

namespace Captured

variable {opening : Nat} {ls body rest : List PhysicalLine} {ms : List HeredocMarker}
  {m : HeredocMarker} {terminator : PhysicalLine} {c : Captured}

/-- What is captured first, and what is captured after it. -/
theorem of_cons_of_capture (h : m.capture ls = some (body, terminator, rest)) :
    of opening ls (m :: ms) = (of terminator.number rest ms).map fun d =>
      ⟨m.heredoc body opening terminator :: d.heredocs, body ++ terminator :: d.covered,
        d.rest⟩ := by
  rw [of, h]
  dsimp only
  cases of terminator.number rest ms with
  | error e => rfl
  | ok d => rfl

/-- All of the heredocs of a logical line are captured. -/
theorem captured_eq (h : of opening ls ms = .ok c) :
    Heredoc.captured opening ls ms = c.heredocs := by
  induction ms generalizing opening ls c with
  | nil =>
    cases h
    rfl
  | cons m ms ih =>
    obtain ⟨body, terminator, rest, d, hm, hd, rfl⟩ := of_cons_eq_ok_iff.mp h
    rw [Heredoc.captured, hm]
    exact congrArg (_ :: ·) (ih hd)

end Captured

namespace Heredoc

variable {x : Heredoc} {file before ls : List PhysicalLine} {opening last : Nat}
  {hs : List Heredoc} {ms : List HeredocMarker}

/-- Heredocs that stand one behind the other lie between the line before them and the last
terminator. -/
theorem Stacked.bounds (hstacked : Stacked file opening hs last) :
    opening ≤ last ∧ ∀ h ∈ hs, opening ≤ h.lines.first ∧ h.lines.last ≤ last := by
  induction hs generalizing opening with
  | nil => exact ⟨Nat.le_of_eq hstacked.symm, by simp⟩
  | cons h hs ih =>
    obtain ⟨hbehind, hrest⟩ := hstacked
    obtain ⟨hle, hbounds⟩ := ih hrest
    have hopens := hbehind.opens
    have hfollows := hbehind.follows
    refine ⟨by omega, List.forall_mem_cons.mpr ⟨by omega, fun k hk => ?_⟩⟩
    have hk := hbounds k hk
    omega

/-- A captured heredoc lies among the lines that it is captured from. -/
theorem bounds_of_captured (hfile : Numbered 1 (before ++ ls))
    (hx : x ∈ captured before.length ls ms) :
    before.length ≤ x.lines.first ∧ x.lines.first < x.lines.last ∧
      x.lines.last ≤ before.length + ls.length := by
  induction ms generalizing before ls with
  | nil => cases hx
  | cons m ms ih =>
    rw [captured] at hx
    rcases hm : m.capture ls with _ | ⟨taken, terminator, rest⟩
    · rw [hm] at hx
      cases hx
    · rw [hm] at hx
      obtain ⟨hsplit, hlength, -, hnumber⟩ := HeredocMarker.split_of_capture hfile hm
      have hfull := congrArg List.length hsplit
      rw [List.length_append, List.length_append, hlength] at hfull
      rcases List.mem_cons.mp hx with rfl | hx
      · obtain ⟨-, hopens, hlast⟩ := HeredocMarker.ends_of_heredoc hfile hm rfl
        omega
      · rw [hsplit] at hfile
        rw [← hlength] at hx
        have hbounds := ih hfile hx
        omega

end Heredoc

namespace LogicalLine

open Heredoc

variable {escape : Char} {x : Heredoc} {first : PhysicalLine} {before ls rest : List PhysicalLine}
  {l : LogicalLine}

/-- The heredocs of a logical line lie within it. -/
theorem Accounts.bounds {file : List PhysicalLine} (h : l.Accounts escape file) :
    ∀ k ∈ l.heredocs, l.lines.first ≤ k.lines.first ∧ k.lines.last ≤ l.lines.last := by
  obtain ⟨last, hends, hstacked⟩ := h.heredocs
  intro k hk
  have hk := hstacked.bounds.2 k hk
  have hordered := hends.ordered
  omega

theorem bounds_of_capturedAt (hfile : Numbered 1 (before ++ first :: ls))
    (hx : x ∈ capturedAt escape first ls) :
    before.length < x.lines.first ∧ x.lines.first < x.lines.last ∧
      x.lines.last ≤ before.length + (first :: ls).length := by
  obtain ⟨hsplit, hlength, -⟩ := split_of_joined escape hfile
  have hfull := congrArg List.length hsplit
  rw [capturedAt, ← hlength] at hx
  rw [hsplit] at hfile
  have hbounds := bounds_of_captured hfile hx
  simp only [List.length_append, List.length_cons] at hbounds hfull ⊢
  omega

/-- A heredoc that is captured from some lines lies among them, behind the first one. -/
theorem Captures.bounds (h : Captures escape x ls) (hfile : Numbered 1 (before ++ ls)) :
    before.length < x.lines.first ∧ x.lines.first < x.lines.last ∧
      x.lines.last ≤ before.length + ls.length := by
  induction h generalizing before with
  | @idle l ls hl h ih =>
    rw [List.append_cons] at hfile
    have hbounds := ih hfile
    simp only [List.length_append, List.length_cons, List.length_nil] at hbounds ⊢
    omega
  | here hl hx => exact bounds_of_capturedAt hfile hx
  | @later l ls rest line hl hread h ih =>
    obtain ⟨-, -, taken, rfl, -⟩ := accounts_of_readAt hfile hl hread
    have hsplit : before ++ l :: (taken ++ rest) = (before ++ l :: taken) ++ rest := by simp
    rw [hsplit] at hfile
    have hbounds := ih hfile
    simp only [List.length_append, List.length_cons] at hbounds ⊢
    omega

/-- All of the heredocs of a logical line are captured for it. -/
theorem capturedAt_eq (h : readAt escape first ls = .ok (l, rest)) :
    capturedAt escape first ls = l.heredocs := by
  obtain ⟨c, hc, rfl, -⟩ := readAt_eq_ok_iff.mp h
  exact Captured.captured_eq hc

/-- The heredocs of logical lines are captured. -/
theorem captures_of_readAll (hl : l ∈ (readAll escape ls).1) (hx : x ∈ l.heredocs) :
    Captures escape x ls := by
  fun_induction readAll escape ls with
  | case1 => cases hl
  | case2 k ks hidle ih => exact .idle hidle (ih hl)
  | case3 k ks _ f hf => cases hl
  | case4 k ks hidle line rest hline lines failure hrest ih =>
    rw [Bool.not_eq_true] at hidle
    rcases List.mem_cons.mp hl with rfl | hl
    · refine .here hidle ?_
      rw [capturedAt_eq hline]
      exact hx
    · rw [hrest] at ih
      exact .later hidle hline (ih hl)

end LogicalLine

namespace Layout

variable {honor : Bool} {ts : List Text} {x : Heredoc}

/-- The heredocs of the logical lines of a file are captured in it. -/
theorem captures_of_mem {l : LogicalLine} (hl : l ∈ (read honor ts).lines) (hx : x ∈ l.heredocs) :
    Captures honor ts x := by
  rw [read] at hl
  rcases hr : Preamble.read honor (PhysicalLine.ofLines ts) with ⟨p, f | ls⟩
  · rw [hr] at hl
    cases hl
  · rw [hr] at hl
    exact ⟨p, ls, hr, LogicalLine.captures_of_readAll hl hx⟩

/-- A captured heredoc lies in the file, and a line stands before its body. -/
theorem Captures.bounds (h : Captures honor ts x) :
    0 < x.lines.first ∧ x.lines.first < x.lines.last ∧ x.lines.last ≤ ts.length := by
  obtain ⟨p, ls, hp, hls⟩ := h
  obtain ⟨before, hfile, -⟩ := Preamble.readOn_idle hp
  have hnumbered : Numbered 1 (PhysicalLine.ofLines ts) := numbered_numberFrom 1 ts
  have hlength : (PhysicalLine.ofLines ts).length = ts.length := length_numberFrom 1 ts
  rw [hfile] at hnumbered hlength
  rw [List.length_append] at hlength
  have hbounds := hls.bounds hnumbered
  omega

end Layout

end Containerfile
