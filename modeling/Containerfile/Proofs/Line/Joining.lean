import Containerfile.Proofs.Line.Accounting
import Containerfile.Proofs.Text.Trim
import Mathlib.Data.List.Forall2

/-! # How the text of an instruction is joined

A line goes on if it ends in the escape character, spaces and tabs after it aside (`GoesOn`).  What
such a line adds to the text of its instruction stands before that character; any other line adds
all of itself (`Adds`).  The text is what its lines add, one after the other with nothing between,
without the blanks around it.  Of the lines after the first one, those that say nothing add nothing
and are left out, whether or not they go on (`LogicalLine.Joins`).

The loop that joins lines decides line by line.  Seen as a whole it keeps a run of lines of which
all but the last go on (`Joined.goesOn_of_mem`), and its text is that of the run (`Joined.text_eq`).
What ties the run to the file is the number of its last line, which can be read off the logical line
(`LogicalLine.textEnd`).

Main statement: `Layout.joins_of_read`. -/
namespace Containerfile

open PhysicalLine

/-! ## Lines that go on -/

/-- What stands before the escape character that ends a line, where spaces and tabs do not count. -/
def GoesOn (escape : Char) (t body : Text) : Prop :=
  ∃ blanks, t = body ++ escape :: blanks ∧ ∀ c ∈ blanks, c = ' ' ∨ c = '\t'

/-- What a line adds to the text of its instruction. -/
def Adds (escape : Char) (t part : Text) : Prop :=
  GoesOn escape t part ∨ (¬ ∃ body, GoesOn escape t body) ∧ part = t

section Lines

variable {escape : Char} {t body : Text}

theorem stripContinuation?_eq_some_iff (he : escape ∈ escapeChoices) :
    stripContinuation? escape t = some body ↔ GoesOn escape t body := by
  have hvisible : (escape == ' ' || escape == '\t') = false := by
    rcases List.mem_pair.mp he with rfl | rfl <;> decide
  rw [stripContinuation?]
  constructor
  · intro h
    split at h
    · rename_i hlast
      cases h
      -- the blanks are what is dropped from the end
      refine ⟨t.rtakeWhile fun c => c == ' ' || c == '\t', ?_, fun c hc => ?_⟩
      · have hsplit :=
          List.rdropWhile_append_rtakeWhile (p := fun c => c == ' ' || c == '\t') (l := t)
        rw [Text.dropEndWhile_eq_rdropWhile] at hlast ⊢
        rw [List.append_cons, List.dropLast_append_getLast? escape hlast]
        exact hsplit.symm
      · simpa using List.mem_rtakeWhile_imp hc
    · cases h
  · rintro ⟨blanks, rfl, hblanks⟩
    have hdrop : Text.dropEndWhile (fun c => c == ' ' || c == '\t') (body ++ escape :: blanks) =
        body ++ [escape] := by
      rw [Text.dropEndWhile, List.reverse_append, List.reverse_cons, List.append_assoc,
        List.dropWhile_append_of_pos fun c hc => by simpa using hblanks c (List.mem_reverse.mp hc),
        List.singleton_append, List.dropWhile_cons_of_neg (by simp [hvisible])]
      simp
    rw [hdrop]
    simp

/-- What the loop takes from a line. -/
theorem adds_getD (he : escape ∈ escapeChoices) (t : Text) :
    Adds escape t ((stripContinuation? escape t).getD t) := by
  cases h : stripContinuation? escape t with
  | none =>
    refine .inr ⟨?_, rfl⟩
    rintro ⟨body, hbody⟩
    rw [(stripContinuation?_eq_some_iff he).mpr hbody] at h
    cases h
  | some body => exact .inl ((stripContinuation?_eq_some_iff he).mp h)

theorem isSome_stripContinuation?_iff (he : escape ∈ escapeChoices) :
    (stripContinuation? escape t).isSome = true ↔ ∃ body, GoesOn escape t body := by
  rw [Option.isSome_iff_exists]
  exact exists_congr fun body => stripContinuation?_eq_some_iff he

end Lines

/-- **How the text of an instruction is joined** from the lines that are kept for it: all
but the last of them go on, the last one does so only if the file ends there, and the
text is what they add. -/
structure LogicalLine.Joins (escape : Char) (atEnd : Prop) (kept : List PhysicalLine)
    (text : Text) :
    Prop where
  goesOn : ∀ p ∈ kept.dropLast, ∃ body, GoesOn escape p.text body
  stops : ∀ p ∈ kept.getLast?, (∃ body, GoesOn escape p.text body) → atEnd
  text : ∃ parts, List.Forall₂ (fun p part => Adds escape p.text part) kept parts ∧
    text = Text.trim parts.flatten

/-! ## The loop as a whole -/

namespace Joined

variable {escape : Char} {t : Text} {first : PhysicalLine} {ls : List PhysicalLine}

/-- The lines whose texts are joined to the first one. -/
def kept (j : Joined) : List PhysicalLine := j.joined.filter (!·.isIdle)

/-- **The text is what the kept lines add.** -/
theorem text_eq (escape : Char) (t : Text) (ls : List PhysicalLine) :
    (of escape t ls).text =
      (t :: (of escape t ls).kept.map PhysicalLine.text).flatMap
        fun u => (stripContinuation? escape u).getD u := by
  induction ls generalizing t with
  | nil => simp [of, kept]
  | cons l ls ih =>
    cases h : stripContinuation? escape t with
    | none =>
      rw [of_cons_of_none h]
      simp [kept, h]
    | some body =>
      cases hl : l.isIdle with
      | true =>
        rw [of_cons_of_idle h hl]
        have hkept : kept ⟨(of escape t ls).text, l :: (of escape t ls).joined,
            (of escape t ls).rest⟩ = (of escape t ls).kept :=
          List.filter_cons_of_neg (by simp [hl])
        rw [hkept]
        exact ih t
      | false =>
        rw [of_cons_of_visible h hl]
        have hkept : kept ⟨body ++ (of escape l.text ls).text, l :: (of escape l.text ls).joined,
            (of escape l.text ls).rest⟩ = l :: (of escape l.text ls).kept :=
          List.filter_cons_of_pos (by simp [hl])
        rw [hkept, List.flatMap_cons, h, List.map_cons]
        exact congrArg (body ++ ·) (ih l.text)

/-- **All kept lines but the last go on.** -/
theorem goesOn_of_mem (escape : Char) (first : PhysicalLine) (ls : List PhysicalLine) :
    ∀ p ∈ (first :: (of escape first.text ls).kept).dropLast,
      (stripContinuation? escape p.text).isSome = true := by
  induction ls generalizing first with
  | nil => simp [of, kept]
  | cons l ls ih =>
    cases h : stripContinuation? escape first.text with
    | none =>
      rw [of_cons_of_none h]
      simp [kept]
    | some body =>
      cases hl : l.isIdle with
      | true =>
        rw [of_cons_of_idle h hl, kept, List.filter_cons_of_neg (by simp [hl])]
        exact ih first
      | false =>
        rw [of_cons_of_visible h hl, kept, List.filter_cons_of_pos (by simp [hl]),
          List.dropLast_cons_cons, List.forall_mem_cons]
        exact ⟨by rw [h]; rfl, ih l⟩

/-- The last of the kept lines does not go on, unless no line is left. -/
theorem stops_of_rest (hfirst : first.isIdle = false) (h : (of escape first.text ls).rest ≠ []) :
    ∀ p ∈ (first :: (of escape first.text ls).kept).getLast?,
      (stripContinuation? escape p.text).isSome = false := by
  have hends := goesOnAfter_of_rest hfirst h
  rw [goesOnAfter, List.filter_cons_of_pos (by simp [hfirst])] at hends
  intro p hp
  rw [kept, Option.mem_def] at hp
  rw [hp] at hends
  exact hends

end Joined

/-! ## The end of the text -/

namespace LogicalLine

variable {escape : Char} {l : LogicalLine} {first : PhysicalLine}
  {ls before after rest : List PhysicalLine}

/-- The number of the line on which the text of a logical line ends: the first heredoc begins there,
or else the logical line ends there too. -/
def textEnd (l : LogicalLine) : Nat :=
  match l.heredocs with
  | [] => l.lines.last
  | h :: _ => h.lines.first

/-- Heredocs begin on the line before them, and none of them covers no line. -/
theorem textEnd_assemble {j : Joined} {c : Captured} {ms : List HeredocMarker}
    (hle : first.number ≤ lastNumber first j)
    (h : Captured.of (lastNumber first j) ls ms = .ok c) :
    (assemble first j c).textEnd = lastNumber first j := by
  cases ms with
  | nil =>
    cases h
    rw [textEnd, assemble]
    show max _ _ = _
    rw [List.append_nil, List.getLast?_cons, Option.getD_some]
    exact Nat.max_eq_left hle
  | cons m ms =>
    obtain ⟨body, terminator, rest, d, -, -, rfl⟩ := Captured.of_cons_eq_ok_iff.mp h
    rfl

/-- **A logical line that is read joins the lines up to the end of its text.** -/
theorem joins_of_readAt (he : escape ∈ escapeChoices) (hfile : Numbered 1 (before ++ first :: ls))
    (hfirst : first.isIdle = false) (h : readAt escape first ls = .ok (l, rest)) :
    ∃ more, slice l.lines.first (l.textEnd + 1) (before ++ first :: ls) = first :: more ∧
      Joins escape (l.textEnd = (before ++ first :: ls).length)
        (first :: more.filter (!·.isIdle)) l.text := by
  obtain ⟨c, hc, rfl, -⟩ := readAt_eq_ok_iff.mp h
  obtain ⟨hsplit, hlast, hnumbered⟩ := split_of_joined escape hfile
  have htext := Joined.text_eq escape first.text ls
  have hgoes := Joined.goesOn_of_mem escape first ls
  have hstops : (Joined.of escape first.text ls).rest ≠ [] → _ := Joined.stops_of_rest hfirst
  generalize Joined.of escape first.text ls = j at *
  have hnumber : first.number = before.length + 1 := hnumbered.1
  have hle : first.number ≤ lastNumber first j := by
    rw [hnumber, ← hlast, List.length_append, List.length_cons]
    omega
  have hend := textEnd_assemble hle hc
  refine ⟨j.joined, ?_, ?_, ?_, ?_⟩
  · have hrun : before ++ first :: ls = before ++ ((first :: j.joined) ++ j.rest) := by
      rw [hsplit, List.append_assoc]
    rw [hrun] at hfile ⊢
    refine slice_of_numbered hfile hnumber ?_
    rw [hend, ← hlast, List.length_append]
    show _ = first.number + _
    omega
  · exact fun p hp => (isSome_stripContinuation?_iff he).mp (hgoes p hp)
  · intro p hp hgo
    rw [hend, ← hlast, hsplit]
    -- lines that are left over would have been joined
    have hrest : j.rest = [] := by
      by_contra hrest
      have hnone := hstops hrest p hp
      rw [(isSome_stripContinuation?_iff he).mpr hgo] at hnone
      cases hnone
    rw [hrest, List.append_nil]
  · refine ⟨(first :: j.kept).map fun p => (stripContinuation? escape p.text).getD p.text, ?_, ?_⟩
    · exact List.forall₂_map_right_iff.mpr (List.forall₂_same.mpr fun p _ => adds_getD he p.text)
    · show Text.trim j.text = _
      rw [htext, ← List.map_cons, List.flatMap_map, List.flatMap_def]

/-- Every logical line is read at a line that says something. -/
theorem exists_readAt_of_mem (h : l ∈ (readAll escape ls).1) :
    ∃ before first after rest, ls = before ++ first :: after ∧ first.isIdle = false ∧
      readAt escape first after = .ok (l, rest) := by
  fun_induction readAll escape ls with
  | case1 => cases h
  | case2 k ks _ ih =>
    obtain ⟨before, first, after, rest, rfl, hread⟩ := ih h
    exact ⟨k :: before, first, after, rest, rfl, hread⟩
  | case3 k ks _ f hf => cases h
  | case4 k ks hidle line rest hline lines failure hrest ih =>
    rcases List.mem_cons.mp h with rfl | h
    · rw [Bool.not_eq_true] at hidle
      exact ⟨[], k, ks, rest, rfl, hidle, hline⟩
    · rw [hrest] at ih
      obtain ⟨before, first, after, rest', hsplit, hread⟩ := ih h
      obtain ⟨taken, rfl, -⟩ := readAt_extent hline
      refine ⟨k :: (taken ++ before), first, after, rest', ?_, hread⟩
      rw [hsplit]
      simp

end LogicalLine

/-! ## Files -/

namespace Preamble

variable {honor : Bool} {p q : Preamble}

theorem escape_of_take {name value : Text} {line : Nat} (hp : p.escape ∈ escapeChoices)
    (h : p.take honor name value line = some (.ok q)) : q.escape ∈ escapeChoices := by
  have hchosen : (chosenEscape? value).getD defaultEscape ∈ escapeChoices := by
    unfold chosenEscape?
    split
    · split
      · rename_i hc
        exact List.contains_iff_mem.mp hc
      · decide
    · decide
  unfold take at h
  dsimp only at h
  split at h
  · rw [takeEscape_eq] at h
    split at h
    · cases h
    · cases h
      show (if honor = true then _ else _) ∈ escapeChoices
      split
      · exact hchosen
      · exact hp
  · split at h
    · cases h
      split <;> exact hp
    · split at h
      · cases h
        split <;> exact hp
      · cases h

/-- The escape character in force is always one of the choices. -/
theorem escape_readOn (honor : Bool) (ls : List PhysicalLine) (hp : p.escape ∈ escapeChoices) :
    (readOn honor p ls).preamble.escape ∈ escapeChoices := by
  induction ls generalizing p with
  | nil => exact hp
  | cons l ls ih =>
    rw [readOn]
    split
    · exact ih hp
    · split
      · exact hp
      · split
        · exact hp
        · exact hp
        · rename_i q hq
          exact ih (escape_of_take hp hq)

end Preamble

namespace Layout

/-- The escape character of a file is one of the choices. -/
theorem escape_read (honor : Bool) (ts : List Text) :
    (Layout.read honor ts).preamble.escape ∈ escapeChoices := by
  have hescape : (Preamble.readOn honor {} (ofLines ts)).preamble.escape ∈ escapeChoices :=
    Preamble.escape_readOn honor (ofLines ts) (by decide)
  rw [Layout.read, Preamble.read]
  rcases hr : Preamble.readOn honor {} (ofLines ts) with ⟨p, f | ls⟩ <;> rw [hr] at hescape <;>
    exact hescape

/-- **How continued lines are joined.**  The lines of a logical line up to the end of its text are a
run of the lines of the file.  Without those after the first that are blank or comments, all but the
last of them go on, the last one does so only if the file ends there, and the text is what they add,
one after the other, without the blanks around it. -/
theorem joins_of_read (honor : Bool) (ts : List Text) :
    let file := PhysicalLine.ofLines ts
    let layout := Layout.read honor ts
    ∀ l ∈ layout.lines, ∃ first more, slice l.lines.first (l.textEnd + 1) file = first :: more ∧
      LogicalLine.Joins layout.preamble.escape (l.textEnd = file.length)
        (first :: more.filter fun p => !(p.text.trim.isEmpty || p.text.trim.head? == some '#'))
        l.text := by
  intro file layout l hl
  have hescape : layout.preamble.escape ∈ escapeChoices := escape_read honor ts
  have hnumbered : Numbered 1 file := numbered_numberFrom 1 ts
  unfold layout at hl hescape ⊢
  rw [Layout.read, Preamble.read] at hl hescape ⊢
  rcases hr : Preamble.readOn honor {} (PhysicalLine.ofLines ts) with ⟨p, f | ls⟩
  · rw [hr] at hl
    cases hl
  · rw [hr] at hl hescape
    obtain ⟨start, hstart, -⟩ := Preamble.readOn_idle hr
    obtain ⟨before, first, after, rest, rfl, hfirst, hread⟩ := LogicalLine.exists_readAt_of_mem hl
    have hfile : file = (start ++ before) ++ first :: after := by
      rw [List.append_assoc]
      exact hstart
    rw [hfile] at hnumbered ⊢
    exact ⟨first, LogicalLine.joins_of_readAt hescape hnumbered hfirst hread⟩

/-- A comment in a continued line goes on in vain, and the heredoc is no part of the text. -/
theorem joins_of_read_comment :
    let ts := ["# escape=\x60".toList, "RUN cat \x60 ".toList, "# c \x60".toList, " <<-E ".toList,
      "\tx".toList, "E".toList]
    let l : LogicalLine := ⟨.between 2 6, "RUN cat \x60 \n# c \x60\n <<-E \n\tx\nE".toList,
      "RUN cat  <<-E".toList, [⟨"E".toList, false, true, "x".toList, .between 4 6⟩]⟩
    l ∈ (Layout.read true ts).lines ∧ l.textEnd = 4 ∧
      ∃ first more, slice 2 5 (ofLines ts) = first :: more ∧
        LogicalLine.Joins (Layout.read true ts).preamble.escape (4 = (ofLines ts).length)
          (first :: more.filter fun p => !(p.text.trim.isEmpty || p.text.trim.head? == some '#'))
          l.text := by
  intro ts l
  have hl : l ∈ (Layout.read true ts).lines := by decide +kernel
  exact ⟨hl, rfl, joins_of_read true ts l hl⟩

end Layout

end Containerfile
