import Containerfile.Proofs.Line.Extent

/-! # Every physical line is accounted for

A file is read into logical lines that lie one behind the other, and what is in none of them says
nothing.  A logical line is what stands on the lines of its span: its raw text is these lines, its
text ends at the first of them after which it does not go on, and its heredocs follow there, each
from the line where the one before it ended to its own terminator (`LogicalLine.Accounts`).

Numbers are what ties a logical line to the file.  The lines of a file are numbered in a row, so a
run of them is the slice between two numbers (`PhysicalLine.slice_of_numbered`).

Main statement: `Layout.read_accounts`. -/
namespace Containerfile

namespace PhysicalLine

variable {n : Nat} {l : PhysicalLine} {ls before run after : List PhysicalLine}

/-! ## Numbers -/

/-- Lines whose numbers go up by one from a first number. -/
def Numbered : Nat → List PhysicalLine → Prop
  | _, [] => True
  | n, l :: ls => l.number = n ∧ Numbered (n + 1) ls

theorem numbered_append :
    Numbered n (before ++ after) ↔ Numbered n before ∧ Numbered (n + before.length) after := by
  induction before generalizing n with
  | nil => simp [Numbered]
  | cons l before ih =>
    rw [List.cons_append, Numbered, Numbered, ih, List.length_cons, and_assoc, Nat.add_assoc,
      Nat.add_comm 1]

theorem numbered_numberFrom (n : Nat) (ts : List Text) : Numbered n (numberFrom n ts) := by
  induction ts generalizing n with
  | nil => trivial
  | cons t ts ih => exact ⟨rfl, ih (n + 1)⟩

theorem Numbered.bounds (h : Numbered n ls) :
    ∀ l ∈ ls, n ≤ l.number ∧ l.number < n + ls.length := by
  induction ls generalizing n with
  | nil => simp
  | cons k ls ih =>
    intro l hl
    rw [List.length_cons]
    rcases List.mem_cons.mp hl with rfl | hl
    · have hk := h.1
      omega
    · have hrest := ih h.2 l hl
      omega

theorem Numbered.last (h : Numbered n (l :: ls)) :
    (ls.getLast?.getD l).number = n + ls.length := by
  induction ls generalizing n l with
  | nil => exact h.1
  | cons k ls ih =>
    have hk := ih h.2
    rw [List.getLast?_cons, Option.getD_some, hk, List.length_cons]
    omega

/-- The lines of a file from one number up to another one, which is left out. -/
def slice (first stop : Nat) (file : List PhysicalLine) : List PhysicalLine :=
  file.filter fun l => decide (first ≤ l.number ∧ l.number < stop)

/-- **A run of lines of a file is the slice between its numbers.** -/
theorem slice_of_numbered {first stop : Nat} (h : Numbered 1 (before ++ (run ++ after)))
    (hfirst : first = before.length + 1) (hstop : stop = first + run.length) :
    slice first stop (before ++ (run ++ after)) = run := by
  obtain ⟨hbefore, htail⟩ := numbered_append.mp h
  obtain ⟨hrun, hafter⟩ := numbered_append.mp htail
  have h1 : slice first stop before = [] := by
    refine List.filter_eq_nil_iff.mpr fun l hl => ?_
    have hl := hbefore.bounds l hl
    simp only [decide_eq_true_eq]
    omega
  have h2 : slice first stop run = run := by
    refine List.filter_eq_self.mpr fun l hl => ?_
    have hl := hrun.bounds l hl
    simp only [decide_eq_true_eq]
    omega
  have h3 : slice first stop after = [] := by
    refine List.filter_eq_nil_iff.mpr fun l hl => ?_
    have hl := hafter.bounds l hl
    simp only [decide_eq_true_eq]
    omega
  unfold slice at *
  rw [List.filter_append, List.filter_append, h1, h2, h3, List.nil_append, List.append_nil]

theorem getElem?_numberFrom (n : Nat) (ts : List Text) (i : Nat) :
    (numberFrom n ts)[i]? =
      ts[i]?.map fun t => ⟨n + i, dropReturn (if n + i = 1 then dropMark t else t)⟩ := by
  induction ts generalizing n i with
  | nil => simp [numberFrom]
  | cons t ts ih =>
    cases i with
    | zero => simp [numberFrom]
    | succ i => simp [numberFrom, ih, Nat.add_assoc, Nat.add_comm 1]

/-- The lines of a file are the given ones, numbered from 1, without the mark before the first one
and without one carriage return each. -/
theorem getElem?_ofLines (ts : List Text) (i : Nat) :
    (ofLines ts)[i]? =
      ts[i]?.map fun t => ⟨i + 1, dropReturn (if i = 0 then dropMark t else t)⟩ := by
  rw [ofLines, getElem?_numberFrom]
  simp [Nat.add_comm 1]

end PhysicalLine

open PhysicalLine

/-! ## Continuations -/

/-- Whether an instruction that stands on some lines goes on: the last of them that says something
ends in the escape character. -/
def goesOnAfter (escape : Char) (ls : List PhysicalLine) : Bool :=
  ((ls.filter (!·.isIdle)).getLast?.bind fun l => stripContinuation? escape l.text).isSome

/-- Whether the text of an instruction that starts at a line of a file ends at another one: it goes
on after each line before that, and after that line only if the file ends there. -/
structure TextEnds (escape : Char) (file : List PhysicalLine) (first last : Nat) : Prop where
  ordered : first ≤ last
  goesOn : ∀ n, first ≤ n → n < last → goesOnAfter escape (slice first (n + 1) file) = true
  ends : last < file.length → goesOnAfter escape (slice first (last + 1) file) = false

section Joining

variable {escape : Char} {first l : PhysicalLine} {ls begun more : List PhysicalLine}

theorem goesOnAfter_idle (h : l.isIdle = true) :
    goesOnAfter escape (first :: l :: ls) = goesOnAfter escape (first :: ls) := by
  simp [goesOnAfter, List.filter_cons, h]

theorem goesOnAfter_visible (h : l.isIdle = false) :
    goesOnAfter escape (first :: l :: ls) = goesOnAfter escape (l :: ls) := by
  unfold goesOnAfter
  by_cases hfirst : first.isIdle
  · simp [h, hfirst]
  · simp [h, hfirst, List.getLast?_cons]

theorem goesOnAfter_singleton (h : first.isIdle = false) :
    goesOnAfter escape [first] = (stripContinuation? escape first.text).isSome := by
  simp [goesOnAfter, h]

/-- A text goes on after each line that another one is joined to. -/
theorem Joined.goesOnAfter_of_joined (hfirst : first.isIdle = false)
    (h : (of escape first.text ls).joined = begun ++ more) (hmore : more ≠ []) :
    goesOnAfter escape (first :: begun) = true := by
  induction ls generalizing first begun with
  | nil =>
    rw [of, eq_comm, List.append_eq_nil_iff] at h
    exact absurd h.2 hmore
  | cons l ls ih =>
    rcases hs : stripContinuation? escape first.text with _ | body
    · rw [of_cons_of_none hs, eq_comm, List.append_eq_nil_iff] at h
      exact absurd h.2 hmore
    · rcases begun with _ | ⟨k, begun⟩
      · rw [goesOnAfter_singleton hfirst, hs]
        rfl
      · by_cases hl : l.isIdle
        · rw [of_cons_of_idle hs hl, List.cons_append, List.cons.injEq] at h
          obtain ⟨rfl, h⟩ := h
          rw [goesOnAfter_idle hl]
          exact ih hfirst h
        · rw [Bool.not_eq_true] at hl
          rw [of_cons_of_visible hs hl, List.cons_append, List.cons.injEq] at h
          obtain ⟨rfl, h⟩ := h
          rw [goesOnAfter_visible hl]
          exact ih hl h

/-- A text does not go on after the lines that were joined, unless no line is left. -/
theorem Joined.goesOnAfter_of_rest (hfirst : first.isIdle = false)
    (h : (of escape first.text ls).rest ≠ []) :
    goesOnAfter escape (first :: (of escape first.text ls).joined) = false := by
  induction ls generalizing first with
  | nil => exact absurd rfl h
  | cons l ls ih =>
    rcases hs : stripContinuation? escape first.text with _ | body
    · rw [of_cons_of_none hs, goesOnAfter_singleton hfirst, hs]
      rfl
    · by_cases hl : l.isIdle
      · rw [of_cons_of_idle hs hl] at h ⊢
        rw [goesOnAfter_idle hl]
        exact ih hfirst h
      · rw [Bool.not_eq_true] at hl
        rw [of_cons_of_visible hs hl] at h ⊢
        rw [goesOnAfter_visible hl]
        exact ih hl h

/-- **The text of an instruction ends with the last of the joined lines.** -/
theorem Joined.textEnds (escape : Char) {before : List PhysicalLine} (hfirst : first.isIdle = false)
    (hfile : Numbered 1 (before ++ first :: ls)) :
    TextEnds escape (before ++ first :: ls) (before.length + 1)
      (before.length + 1 + (of escape first.text ls).joined.length) := by
  have hparts := joined_append_rest escape first.text ls
  generalize hj : (of escape first.text ls).joined = joined at *
  generalize hr : (of escape first.text ls).rest = rest at *
  -- the first line and some of the joined ones are a run of the file
  have hrun : ∀ begun more, joined = begun ++ more →
      slice (before.length + 1) (before.length + 1 + begun.length + 1) (before ++ first :: ls) =
        first :: begun := by
    intro begun more hbegun
    have hsplit : before ++ first :: ls = before ++ ((first :: begun) ++ (more ++ rest)) := by
      rw [← hparts, hbegun, List.append_assoc, List.cons_append]
    rw [hsplit] at hfile ⊢
    refine slice_of_numbered hfile rfl ?_
    rw [List.length_cons, Nat.add_assoc]
  refine ⟨Nat.le_add_right .., ?_, ?_⟩
  · intro n hle hlt
    obtain ⟨k, rfl⟩ := Nat.exists_eq_add_of_le hle
    have hk : (joined.take k).length = k := by
      rw [List.length_take]
      omega
    have hslice := hrun (joined.take k) (joined.drop k) (List.take_append_drop ..).symm
    rw [hk] at hslice
    rw [hslice]
    refine goesOnAfter_of_joined hfirst (hj.trans (List.take_append_drop k joined).symm) ?_
    rw [Ne, List.drop_eq_nil_iff]
    omega
  · intro hlt
    rw [hrun joined [] (List.append_nil _).symm, ← hj]
    refine goesOnAfter_of_rest hfirst ?_
    rw [hr]
    rintro rfl
    rw [← hparts, List.append_nil, List.length_append, List.length_cons] at hlt
    omega

end Joining

/-! ## Heredocs -/

namespace Heredoc

/-- What announced a heredoc. -/
def marker (h : Heredoc) : HeredocMarker := ⟨h.delimiter, h.quoted, h.stripTabs⟩

/-- Whether a heredoc stands in a file behind a line: it goes from that line to the first terminator
after it, and its body is what the lines between hold. -/
structure Behind (file : List PhysicalLine) (opening : Nat) (h : Heredoc) : Prop where
  opens : h.lines.first = opening
  follows : opening < h.lines.last
  body : h.body = Text.join ['\n']
    ((slice (opening + 1) h.lines.last file).map fun l => h.marker.content l.text)
  inside : ∀ l ∈ slice (opening + 1) h.lines.last file, h.marker.isTerminator l.text = false
  closes : ∃ l ∈ file, l.number = h.lines.last ∧ h.marker.isTerminator l.text = true

/-- Whether heredocs stand in a file one behind the other: the first one behind the line
`opening`, each next one behind the terminator of the one before it, and the terminator of the
last one is on the line `last`. -/
def Stacked (file : List PhysicalLine) : Nat → List Heredoc → Nat → Prop
  | opening, [], last => last = opening
  | opening, h :: hs, last => h.Behind file opening ∧ Stacked file h.lines.last hs last

end Heredoc

namespace HeredocMarker

variable {m : HeredocMarker} {before ls taken rest : List PhysicalLine} {terminator : PhysicalLine}

/-- The terminator parts the lines of a file. -/
theorem split_of_capture (hfile : Numbered 1 (before ++ ls))
    (hm : m.capture ls = some (taken, terminator, rest)) :
    before ++ ls = (before ++ (taken ++ [terminator])) ++ rest ∧
      (before ++ (taken ++ [terminator])).length = terminator.number ∧
      Numbered (before.length + 1) taken ∧
      terminator.number = before.length + taken.length + 1 := by
  obtain ⟨rfl, -, -⟩ := capture_eq_some_iff.mp hm
  obtain ⟨htaken, hbehind⟩ := numbered_append.mp (numbered_append.mp hfile).2
  have hnumber : terminator.number = before.length + taken.length + 1 := by
    have hhead := hbehind.1
    omega
  rw [Nat.add_comm] at htaken
  refine ⟨by simp, ?_, htaken, hnumber⟩
  simp only [List.length_append, List.length_singleton]
  omega

/-- A heredoc that is captured ends with its terminator. -/
theorem ends_of_heredoc {x : Heredoc} (hfile : Numbered 1 (before ++ ls))
    (hm : m.capture ls = some (taken, terminator, rest))
    (hx : m.heredoc taken before.length terminator = x) :
    x.marker = m ∧ x.lines.first = before.length ∧ x.lines.last = terminator.number := by
  obtain ⟨-, -, -, hnumber⟩ := split_of_capture hfile hm
  subst hx
  refine ⟨rfl, rfl, ?_⟩
  show max terminator.number before.length = _
  omega

/-- The lines of a body are those between the line before a heredoc and its terminator. -/
theorem slice_of_capture (hfile : Numbered 1 (before ++ ls))
    (hm : m.capture ls = some (taken, terminator, rest)) :
    slice (before.length + 1) terminator.number (before ++ ls) = taken := by
  obtain ⟨-, -, -, hnumber⟩ := split_of_capture hfile hm
  obtain ⟨rfl, -, -⟩ := capture_eq_some_iff.mp hm
  exact slice_of_numbered hfile rfl (by omega)

/-- A heredoc that is captured stands behind the lines before it. -/
theorem behind_of_capture (hfile : Numbered 1 (before ++ ls))
    (hm : m.capture ls = some (taken, terminator, rest)) :
    (m.heredoc taken before.length terminator).Behind (before ++ ls) before.length := by
  obtain ⟨-, -, -, hnumber⟩ := split_of_capture hfile hm
  obtain ⟨hmarker, -, hlast⟩ := ends_of_heredoc hfile hm rfl
  have hslice := slice_of_capture hfile hm
  obtain ⟨rfl, hterm, hbody⟩ := capture_eq_some_iff.mp hm
  refine ⟨rfl, ?_, ?_, ?_, ?_⟩
  · rw [hlast]
    omega
  · rw [hlast, hslice, hmarker]
    rfl
  · rw [hlast, hslice, hmarker]
    exact hbody
  · refine ⟨terminator, by simp, hlast.symm, ?_⟩
    rw [hmarker]
    exact hterm

end HeredocMarker

/-- **Captured heredocs stand one behind the other.** -/
theorem Captured.stacked {before ls : List PhysicalLine} {ms : List HeredocMarker} {c : Captured}
    (hfile : Numbered 1 (before ++ ls)) (h : of before.length ls ms = .ok c) :
    Heredoc.Stacked (before ++ ls) before.length c.heredocs
      (before.length + c.covered.length) := by
  induction ms generalizing before ls c with
  | nil =>
    cases h
    rfl
  | cons m ms ih =>
    obtain ⟨body, terminator, rest, d, hm, hd, rfl⟩ := of_cons_eq_ok_iff.mp h
    obtain ⟨-, -, hlast⟩ := HeredocMarker.ends_of_heredoc hfile hm rfl
    obtain ⟨hsplit, hlength, -, hnumber⟩ := HeredocMarker.split_of_capture hfile hm
    refine ⟨HeredocMarker.behind_of_capture hfile hm, ?_⟩
    have hend : before.length + (body ++ terminator :: d.covered).length =
        terminator.number + d.covered.length := by
      simp only [List.length_append, List.length_cons]
      omega
    -- the next heredoc stands behind the terminator
    rw [hsplit] at hfile ⊢
    rw [← hlength] at hd
    have hrest := ih hfile hd
    rw [hlength] at hrest
    rw [hlast]
    dsimp only
    rw [hend]
    exact hrest

/-! ## Logical lines -/

namespace LogicalLine

/-- Whether a logical line is what stands on the lines of its span in a file. -/
structure Accounts (escape : Char) (file : List PhysicalLine) (l : LogicalLine) : Prop where
  first_pos : 0 < l.lines.first
  last_le : l.lines.last ≤ file.length
  raw : l.raw = Text.join ['\n']
    ((slice l.lines.first (l.lines.last + 1) file).map PhysicalLine.text)
  /-- The heredocs begin where the text ends, and the last one ends where the logical line ends. -/
  heredocs : ∃ last, TextEnds escape file l.lines.first last ∧
    Heredoc.Stacked file last l.heredocs l.lines.last

variable {escape : Char} {first : PhysicalLine} {before ls rest : List PhysicalLine}
  {l : LogicalLine}

/-- The text of a logical line ends where the lines before its heredocs do. -/
theorem split_of_joined (escape : Char) (hfile : Numbered 1 (before ++ first :: ls)) :
    let j := Joined.of escape first.text ls
    before ++ first :: ls = (before ++ first :: j.joined) ++ j.rest ∧
      (before ++ first :: j.joined).length = lastNumber first j ∧
      Numbered (before.length + 1) (first :: j.joined) := by
  have hparts := Joined.joined_append_rest escape first.text ls
  generalize Joined.of escape first.text ls = j at *
  have hsplit : before ++ first :: ls = (before ++ first :: j.joined) ++ j.rest := by
    rw [List.append_assoc, List.cons_append, hparts]
  rw [hsplit] at hfile
  have htext := (numbered_append.mp (numbered_append.mp hfile).1).2
  rw [Nat.add_comm] at htext
  refine ⟨hsplit, ?_, htext⟩
  rw [lastNumber, htext.last, List.length_append, List.length_cons]
  omega

/-- **A logical line that is read accounts for the lines that it takes.** -/
theorem accounts_of_readAt (hfile : Numbered 1 (before ++ first :: ls))
    (hfirst : first.isIdle = false) (h : readAt escape first ls = .ok (l, rest)) :
    l.Accounts escape (before ++ first :: ls) ∧ l.lines.first = before.length + 1 ∧
      ∃ taken, ls = taken ++ rest ∧ l.lines.last = before.length + 1 + taken.length := by
  obtain ⟨c, hc, rfl, rfl⟩ := readAt_eq_ok_iff.mp h
  have htext := Joined.textEnds escape hfirst hfile
  have hparts := Joined.joined_append_rest escape first.text ls
  obtain ⟨hsplit, hopening, -⟩ := split_of_joined escape hfile
  generalize Joined.of escape first.text ls = j at *
  have hcover := Captured.covered_append_rest hc
  have htaken : ls = (j.joined ++ c.covered) ++ c.rest := by
    rw [List.append_assoc, hcover, hparts]
  have hnumbered := (numbered_append.mp hfile).2
  have hnumber : first.number = before.length + 1 := by
    rw [hnumbered.1, Nat.add_comm]
  -- the logical line ends with the last covered line
  have hend : ((first :: j.joined ++ c.covered).getLast?.getD first).number =
      before.length + 1 + (j.joined ++ c.covered).length := by
    rw [htaken, ← List.cons_append] at hnumbered
    have hlast := (numbered_append.mp hnumbered).1.last
    rw [List.cons_append, List.getLast?_cons, Option.getD_some, hlast]
    omega
  have hspan : (assemble first j c).lines.last =
      before.length + 1 + (j.joined ++ c.covered).length := by
    show max _ _ = _
    rw [hend]
    omega
  have hstart : (assemble first j c).lines.first = before.length + 1 := hnumber
  have hheredocs : Heredoc.Stacked (before ++ first :: ls)
      (before.length + 1 + j.joined.length) c.heredocs
      (before.length + 1 + (j.joined ++ c.covered).length) := by
    have hlength : (before ++ first :: j.joined).length = before.length + 1 + j.joined.length := by
      simp only [List.length_append, List.length_cons]
      omega
    rw [← hopening] at hc
    rw [hsplit] at hfile ⊢
    have hstacked := Captured.stacked hfile hc
    rw [hlength] at hstacked
    rwa [List.length_append, ← Nat.add_assoc]
  refine ⟨⟨?_, ?_, ?_, ?_⟩, hstart, _, htaken, hspan⟩
  · omega
  · rw [hspan, htaken]
    simp only [List.length_append, List.length_cons]
    omega
  · have hslice : slice (before.length + 1)
        (before.length + 1 + (j.joined ++ c.covered).length + 1) (before ++ first :: ls) =
          first :: (j.joined ++ c.covered) := by
      have hsplit : before ++ first :: ls =
          before ++ ((first :: (j.joined ++ c.covered)) ++ c.rest) := by
        rw [List.cons_append, ← htaken]
      rw [hsplit] at hfile ⊢
      refine slice_of_numbered hfile rfl ?_
      rw [List.length_cons, Nat.add_assoc]
    rw [hstart, hspan, hslice]
    rfl
  · rw [hstart, hspan]
    exact ⟨_, htext, hheredocs⟩

/-- **Logical lines account for their lines, one behind the other.** -/
theorem accounts_of_readAll (escape : Char) (hfile : Numbered 1 (before ++ ls)) :
    (readAll escape ls).1.Pairwise (fun a b => a.lines.last < b.lines.first) ∧
      ∀ l ∈ (readAll escape ls).1,
        before.length < l.lines.first ∧ l.Accounts escape (before ++ ls) := by
  fun_induction readAll escape ls generalizing before with
  | case1 => simp
  | case2 k ks _ ih =>
    rw [List.append_cons] at hfile ⊢
    obtain ⟨hbehind, hlines⟩ := ih hfile
    refine ⟨hbehind, fun l hl => ?_⟩
    obtain ⟨hfirst, hl⟩ := hlines l hl
    rw [List.length_append, List.length_singleton] at hfirst
    exact ⟨by omega, hl⟩
  | case3 k ks _ f hf => simp
  | case4 k ks hidle line rest hline lines failure hrest ih =>
    rw [Bool.not_eq_true] at hidle
    obtain ⟨hl, hfirst, taken, rfl, hlast⟩ := accounts_of_readAt hfile hidle hline
    -- the lines after the logical line are read behind the ones that it takes
    have hsplit : before ++ k :: (taken ++ rest) = (before ++ k :: taken) ++ rest := by simp
    rw [hsplit] at hfile hl ⊢
    obtain ⟨hbehind, hlines⟩ := ih hfile
    rw [hrest] at hbehind hlines
    have hlater : ∀ m ∈ lines, line.lines.last < m.lines.first := by
      intro m hm
      have hm := (hlines m hm).1
      simp only [List.length_append, List.length_cons] at hm
      omega
    refine ⟨List.pairwise_cons.mpr ⟨hlater, hbehind⟩, ?_⟩
    rw [List.forall_mem_cons]
    refine ⟨⟨by omega, hl⟩, fun m hm => ?_⟩
    obtain ⟨hm, haccounts⟩ := hlines m hm
    simp only [List.length_append, List.length_cons] at hm
    exact ⟨by omega, haccounts⟩

/-- **What is in no logical line says nothing**, unless the reading failed. -/
theorem idle_of_readAll (hfile : Numbered 1 (before ++ ls))
    (h : (readAll escape ls).2 = none) :
    ∀ k ∈ ls, (∀ l ∈ (readAll escape ls).1, l.lines.contains k.number = false) →
      k.isIdle = true := by
  fun_induction readAll escape ls generalizing before with
  | case1 => simp
  | case2 k ks hidle ih =>
    rw [List.append_cons] at hfile
    rw [List.forall_mem_cons]
    exact ⟨fun _ => hidle, ih hfile h⟩
  | case3 k ks _ f hf => cases h
  | case4 k ks hidle line rest hline lines failure hrest ih =>
    rw [Bool.not_eq_true] at hidle
    obtain ⟨-, hfirst, taken, rfl, hlast⟩ := accounts_of_readAt hfile hidle hline
    have hsplit : before ++ k :: (taken ++ rest) = (before ++ k :: taken) ++ rest := by simp
    rw [hsplit] at hfile
    obtain ⟨htaken, -⟩ := numbered_append.mp hfile
    rw [hrest] at ih
    intro m hm hout
    rw [List.forall_mem_cons] at hout
    rw [← List.cons_append] at hm
    rcases List.mem_append.mp hm with hm | hm
    · -- what the logical line takes has its number in the span
      have hbounds := (numbered_append.mp htaken).2.bounds m hm
      have hcontains := hout.1
      simp only [LineSpan.contains, decide_eq_false_iff_not] at hcontains
      rw [List.length_cons] at hbounds
      omega
    · exact ih hfile h m hm hout.2

end LogicalLine

/-! ## Files -/

/-- A preamble is made of lines that say nothing to those who do not look for directives. -/
theorem Preamble.readOn_idle {honor : Bool} {p q : Preamble} {ls rest : List PhysicalLine}
    (h : readOn honor p ls = ⟨q, .ok rest⟩) :
    ∃ before, ls = before ++ rest ∧ ∀ k ∈ before, k.isIdle = true := by
  induction ls generalizing p with
  | nil =>
    cases h
    exact ⟨[], rfl, by simp⟩
  | cons l ls ih =>
    have hnone : ∀ r : Preamble, (⟨r, .ok (l :: ls)⟩ : Reading) = ⟨q, .ok rest⟩ →
        ∃ before, l :: ls = before ++ rest ∧ ∀ k ∈ before, k.isIdle = true := by
      intro r hr
      cases hr
      exact ⟨[], rfl, by simp⟩
    have hmore : ∀ r : Preamble, l.isIdle = true → readOn honor r ls = ⟨q, .ok rest⟩ →
        ∃ before, l :: ls = before ++ rest ∧ ∀ k ∈ before, k.isIdle = true := by
      intro r hidle hr
      obtain ⟨before, rfl, hbefore⟩ := ih hr
      exact ⟨l :: before, rfl, List.forall_mem_cons.mpr ⟨hidle, hbefore⟩⟩
    rw [readOn] at h
    split at h
    · rename_i hempty
      refine hmore p ?_ h
      rw [PhysicalLine.isIdle, hempty, Bool.true_or]
    · split at h
      · exact hnone p h
      · rename_i name value hdirective
        split at h
        · exact hnone p h
        · cases h
        · rename_i r hr
          refine hmore r ?_ h
          -- a directive is a comment
          unfold splitDirective at hdirective
          split at hdirective
          · rename_i body hbody
            simp [PhysicalLine.isIdle, PhysicalLine.isComment, hbody]
          · cases hdirective

namespace Layout

/-- The logical lines of a file lie one behind the other and account for their lines. -/
theorem accounts_read (honor : Bool) (ts : List Text) :
    (Layout.read honor ts).lines.Pairwise (fun a b => a.lines.last < b.lines.first) ∧
      ∀ l ∈ (Layout.read honor ts).lines,
        l.Accounts (Layout.read honor ts).preamble.escape (PhysicalLine.ofLines ts) := by
  have hnumbered : Numbered 1 (PhysicalLine.ofLines ts) := numbered_numberFrom 1 ts
  rw [Layout.read, Preamble.read]
  rcases hr : Preamble.readOn honor {} (PhysicalLine.ofLines ts) with ⟨p, f | ls⟩
  · simp
  · obtain ⟨before, hfile, -⟩ := Preamble.readOn_idle hr
    rw [hfile] at hnumbered ⊢
    obtain ⟨hbehind, hlines⟩ := LogicalLine.accounts_of_readAll p.escape hnumbered
    exact ⟨hbehind, fun l hl => (hlines l hl).2⟩

/-- If nothing failed, what is in no logical line says nothing. -/
theorem idle_of_read {honor : Bool} {ts : List Text} (h : (Layout.read honor ts).failure = none) :
    ∀ k ∈ PhysicalLine.ofLines ts,
      (∀ l ∈ (Layout.read honor ts).lines, l.lines.contains k.number = false) →
        k.isIdle = true := by
  have hnumbered : Numbered 1 (PhysicalLine.ofLines ts) := numbered_numberFrom 1 ts
  intro k hk hout
  rw [Layout.read, Preamble.read] at h hout
  rcases hr : Preamble.readOn honor {} (PhysicalLine.ofLines ts) with ⟨p, f | ls⟩
  · rw [hr] at h
    cases h
  · rw [hr] at h hout
    obtain ⟨before, hfile, hbefore⟩ := Preamble.readOn_idle hr
    rw [hfile] at hnumbered hk
    rcases List.mem_append.mp hk with hk | hk
    · exact hbefore k hk
    · exact LogicalLine.idle_of_readAll hnumbered h k hk hout

/-- **Every line of a file is accounted for exactly once.**  The lines are the given ones, numbered
from 1, the first one without a byte order mark and each without one carriage return at its end.

1. The spans of the logical lines lie one behind the other.
2. Each logical line is what stands on the lines of its span.
3. If nothing failed, a line in no span is blank or a comment. -/
theorem read_accounts (honor : Bool) (ts : List Text) :
    let file := PhysicalLine.ofLines ts
    let layout := Layout.read honor ts
    (∀ i : Nat, file[i]? = ts[i]?.map fun t =>
        ⟨i + 1, PhysicalLine.dropReturn (if i = 0 then PhysicalLine.dropMark t else t)⟩) ∧
      layout.lines.Pairwise (fun a b => a.lines.last < b.lines.first) ∧
      (∀ l ∈ layout.lines, l.Accounts layout.preamble.escape file) ∧
      (layout.failure = none →
        ∀ k ∈ file, (∀ l ∈ layout.lines, l.lines.contains k.number = false) →
          k.text.trim = [] ∨ k.text.trim.head? = some '#') := by
  obtain ⟨hbehind, hlines⟩ := accounts_read honor ts
  refine ⟨PhysicalLine.getElem?_ofLines ts, hbehind, hlines, ?_⟩
  intro hnone k hk hout
  have hidle := idle_of_read hnone k hk hout
  simpa [PhysicalLine.isIdle, PhysicalLine.isEmpty, PhysicalLine.isComment] using hidle

/-- A directive behind a byte order mark, an instruction with a comment inside and two heredocs
behind it, of which one leaves its tabs out, and a blank line. -/
theorem read_accounts_heredoc :
    let ts := ["\ufeff# escape=\x60\r".toList, "RUN cat \x60".toList, "# c".toList,
      " <<-E <<F\r".toList, "\tx\r".toList, "\tE".toList, "\ty".toList, "F".toList, " ".toList]
    let file := PhysicalLine.ofLines ts
    let layout := Layout.read true ts
    let line : LogicalLine :=
      { lines := .between 2 8
        raw := "RUN cat \x60\n# c\n <<-E <<F\n\tx\n\tE\n\ty\nF".toList
        text := "RUN cat  <<-E <<F".toList
        heredocs := [⟨"E".toList, false, true, "x".toList, .between 4 6⟩,
          ⟨"F".toList, false, false, "\ty".toList, .between 6 8⟩] }
    (file[0]? = some ⟨1, "# escape=\x60".toList⟩ ∧ file[4]? = some ⟨5, "\tx".toList⟩) ∧
      layout.failure = none ∧ layout.lines = [line] ∧ line.Accounts '\x60' file ∧
      ∀ k ∈ file, line.lines.contains k.number = false →
        k.text.trim = [] ∨ k.text.trim.head? = some '#' := by
  intro ts file layout line
  obtain ⟨htexts, -, haccounts, hidle⟩ := read_accounts true ts
  have hnone : layout.failure = none := by decide +kernel
  have hlines : layout.lines = [line] := by decide +kernel
  have hescape : layout.preamble.escape = '\x60' := by decide +kernel
  rw [hlines, hescape, List.forall_mem_singleton] at haccounts
  refine ⟨⟨(htexts 0).trans rfl, (htexts 4).trans rfl⟩, hnone, hlines, haccounts,
    fun k hk hout => ?_⟩
  refine hidle hnone k hk ?_
  rw [hlines, List.forall_mem_singleton]
  exact hout

end Layout

end Containerfile
