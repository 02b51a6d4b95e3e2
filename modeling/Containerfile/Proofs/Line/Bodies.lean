import Containerfile.Proofs.Line.Captures
import Containerfile.Proofs.Line.Preamble
import Mathlib.Data.List.Forall2

/-! # Lines written over the body of a heredoc

What stands between the line before a heredoc and its terminator is its body and nothing else.  If
other lines that do not end the heredoc are written there (`Heredoc.overwrite`), the file is read
into the same logical lines, with only that heredoc changed (`LogicalLine.changed_of_readAll`,
`Layout.changed_of_read`).  This goes for every heredoc that is captured.

Numbers decide which lines are written over.  Lines before a heredoc and after it keep their places,
so they are read as they were; the terminator is still the first one after the line before.  Putting
other lines in place of a body, as many as it has, is writing over it
(`Layout.changed_of_rewrite`). -/
namespace Containerfile

open PhysicalLine

namespace Heredoc

variable {x : Heredoc} {file ls : List PhysicalLine} {hs : List Heredoc}

/-! ## Writing over a body -/

/-- A line of a file in which the lines between the ends of a heredoc were written anew, the one
with the number `n` as `u n`. -/
def overwrite (x : Heredoc) (u : Nat → Text) (l : PhysicalLine) : PhysicalLine :=
  if x.lines.first < l.number ∧ l.number < x.lines.last then ⟨l.number, u l.number⟩ else l

/-- The body that a heredoc has if it stands in a file. -/
def bodyIn (file : List PhysicalLine) (x : Heredoc) : Text :=
  Text.join ['\n']
    ((slice (x.lines.first + 1) x.lines.last file).map fun l => x.marker.content l.text)

/-- Gives one heredoc another body and leaves all others as they are. -/
def withBody (x : Heredoc) (body : Text) (h : Heredoc) : Heredoc :=
  if h = x then { x with body := body } else h

variable {u : Nat → Text} {l : PhysicalLine} {body : Text} {n : Nat}

@[simp] theorem number_overwrite : (x.overwrite u l).number = l.number := by
  rw [overwrite]
  split
  · rfl
  · rfl

theorem overwrite_of_outside (h : l.number ≤ x.lines.first ∨ x.lines.last ≤ l.number) :
    x.overwrite u l = l := by
  rw [overwrite, if_neg (by omega)]

theorem text_overwrite_of_inside (h : x.lines.first < l.number) (h' : l.number < x.lines.last) :
    (x.overwrite u l).text = u l.number := by
  rw [overwrite, if_pos ⟨h, h'⟩]

/-- Lines before a heredoc and lines after it are left as they are. -/
theorem map_overwrite_of_outside (hls : Numbered n ls)
    (h : n + ls.length ≤ x.lines.first + 1 ∨ x.lines.last ≤ n) : ls.map (x.overwrite u) = ls := by
  refine (List.map_congr_left fun l hl => ?_).trans (List.map_id ls)
  have hl := hls.bounds l hl
  exact overwrite_of_outside (by omega)

theorem slice_map_overwrite (first stop : Nat) :
    slice first stop (file.map (x.overwrite u)) = (slice first stop file).map (x.overwrite u) := by
  rw [slice, slice, List.filter_map]
  refine congrArg (List.map _) (List.filter_congr fun l _ => ?_)
  simp

theorem map_withBody_of_not_mem (h : x ∉ hs) : hs.map (x.withBody body) = hs := by
  refine (List.map_congr_left fun k hk => ?_).trans (List.map_id hs)
  have hne : k ≠ x := by
    rintro rfl
    exact h hk
  rw [withBody, if_neg hne, id]

end Heredoc

namespace HeredocMarker

open Heredoc

variable {m : HeredocMarker} {x : Heredoc} {u : Nat → Text}
  {before ls body rest : List PhysicalLine} {terminator : PhysicalLine}

/-- A terminator that is left where it is ends the heredoc if nothing before it does. -/
theorem capture_overwrite (hm : m.capture ls = some (body, terminator, rest))
    (hterm : x.overwrite u terminator = terminator)
    (hbody : ∀ l ∈ body, m.isTerminator (x.overwrite u l).text = false) :
    m.capture (ls.map (x.overwrite u)) =
      some (body.map (x.overwrite u), terminator, rest.map (x.overwrite u)) := by
  obtain ⟨rfl, hends, -⟩ := capture_eq_some_iff.mp hm
  refine capture_eq_some_iff.mpr ⟨?_, hends, List.forall_mem_map.mpr hbody⟩
  rw [List.map_append, List.map_cons, hterm]

/-- **A heredoc gets the body that is written over its own.** -/
theorem heredoc_overwrite (hfile : Numbered 1 (before ++ ls))
    (hm : m.capture ls = some (body, terminator, rest))
    (hx : m.heredoc body before.length terminator = x) :
    m.heredoc (body.map (x.overwrite u)) before.length terminator =
      x.withBody (x.bodyIn ((before ++ ls).map (x.overwrite u)))
        (m.heredoc body before.length terminator) := by
  obtain ⟨hmarker, hfirst, hlast⟩ := ends_of_heredoc hfile hm hx
  have hslice := slice_of_capture hfile hm
  rw [hx, withBody, if_pos rfl, bodyIn, slice_map_overwrite, hfirst, hlast, hslice, hmarker,
    List.map_map, heredoc, List.map_map, ← hx]
  rfl

end HeredocMarker

namespace Captured

open Heredoc

variable {x : Heredoc} {u : Nat → Text} {body : Text} {before ls : List PhysicalLine}
  {ms : List HeredocMarker}

/-- What is captured, with lines written over the body of a heredoc. -/
def overwrite (x : Heredoc) (u : Nat → Text) (body : Text) (c : Captured) : Captured :=
  ⟨c.heredocs.map (x.withBody body), c.covered.map (x.overwrite u), c.rest.map (x.overwrite u)⟩

/-- What is captured behind a heredoc does not change with it. -/
theorem of_overwrite_of_behind (hfile : Numbered 1 (before ++ ls))
    (hlt : x.lines.first < x.lines.last) (hx : x.lines.last ≤ before.length) :
    of before.length (ls.map (x.overwrite u)) ms =
      (of before.length ls ms).map (overwrite x u body) := by
  have hls := (numbered_append.mp hfile).2
  rw [map_overwrite_of_outside hls (by omega)]
  cases hc : of before.length ls ms with
  | error m => rfl
  | ok c =>
    have hnot : x ∉ c.heredocs := by
      intro hmem
      have hbounds := (Captured.stacked hfile hc).bounds.2 x hmem
      omega
    rw [← covered_append_rest hc] at hls
    obtain ⟨hcovered, hrest⟩ := numbered_append.mp hls
    show _ = Except.ok (overwrite x u body c)
    rw [overwrite, map_withBody_of_not_mem hnot, map_overwrite_of_outside hcovered (by omega),
      map_overwrite_of_outside hrest (by omega)]

/-- A first heredoc and what is captured behind it change one by one. -/
theorem of_cons_overwrite {opening : Nat} {m : HeredocMarker} {taken rest : List PhysicalLine}
    {terminator : PhysicalLine} (hm : m.capture ls = some (taken, terminator, rest))
    (hends : x.overwrite u terminator = terminator)
    (hnone : ∀ l ∈ taken, m.isTerminator (x.overwrite u l).text = false)
    (hheredoc : m.heredoc (taken.map (x.overwrite u)) opening terminator =
      x.withBody body (m.heredoc taken opening terminator))
    (hrest : of terminator.number (rest.map (x.overwrite u)) ms =
      (of terminator.number rest ms).map (overwrite x u body)) :
    of opening (ls.map (x.overwrite u)) (m :: ms) =
      (of opening ls (m :: ms)).map (overwrite x u body) := by
  rw [of_cons_of_capture (HeredocMarker.capture_overwrite hm hends hnone), hrest, hheredoc,
    of_cons_of_capture hm]
  cases of terminator.number rest ms with
  | error e => rfl
  | ok d => simp [Except.map, overwrite, hends]

/-- Writing over the body of the first heredoc leaves those behind it alone. -/
theorem of_overwrite_of_first {m : HeredocMarker} {taken rest : List PhysicalLine}
    {terminator : PhysicalLine} (hfile : Numbered 1 (before ++ ls))
    (hm : m.capture ls = some (taken, terminator, rest))
    (hx : m.heredoc taken before.length terminator = x)
    (hu : ∀ n, x.lines.first < n → n < x.lines.last → x.marker.isTerminator (u n) = false) :
    of before.length (ls.map (x.overwrite u)) (m :: ms) =
      (of before.length ls (m :: ms)).map
        (overwrite x u (x.bodyIn ((before ++ ls).map (x.overwrite u)))) := by
  obtain ⟨hsplit, hlength, htaken, hnumber⟩ := HeredocMarker.split_of_capture hfile hm
  have hheredoc := HeredocMarker.heredoc_overwrite (u := u) hfile hm hx
  obtain ⟨hmarker, hfirst, hlast⟩ := HeredocMarker.ends_of_heredoc hfile hm hx
  have hends : x.overwrite u terminator = terminator := overwrite_of_outside (by omega)
  refine of_cons_overwrite hm hends ?_ hheredoc ?_
  · intro l hl
    have hl := htaken.bounds l hl
    rw [text_overwrite_of_inside (by omega) (by omega), ← hmarker]
    exact hu l.number (by omega) (by omega)
  · rw [hsplit] at hfile
    rw [← hlength]
    exact of_overwrite_of_behind hfile (by omega) (by omega)

/-- **Writing over a captured body changes that heredoc and no other one that is captured with
it.** -/
theorem of_overwrite (hfile : Numbered 1 (before ++ ls)) (hx : x ∈ captured before.length ls ms)
    (hu : ∀ n, x.lines.first < n → n < x.lines.last → x.marker.isTerminator (u n) = false) :
    of before.length (ls.map (x.overwrite u)) ms =
      (of before.length ls ms).map
        (overwrite x u (x.bodyIn ((before ++ ls).map (x.overwrite u)))) := by
  induction ms generalizing before ls with
  | nil => cases hx
  | cons m ms ih =>
    rw [captured] at hx
    rcases hm : m.capture ls with _ | ⟨taken, terminator, rest⟩
    · rw [hm] at hx
      cases hx
    · rw [hm] at hx
      by_cases hhere : m.heredoc taken before.length terminator = x
      · exact of_overwrite_of_first hfile hm hhere hu
      · obtain ⟨hsplit, hlength, htaken, hnumber⟩ := HeredocMarker.split_of_capture hfile hm
        obtain ⟨-, -, hnone⟩ := HeredocMarker.capture_eq_some_iff.mp hm
        have hbehind : x ∈ captured terminator.number rest ms := by
          rcases List.mem_cons.mp hx with hx | hx
          · exact absurd hx.symm hhere
          · exact hx
        rw [← hlength] at hbehind
        rw [hsplit] at hfile
        have hbounds := bounds_of_captured hfile hbehind
        have hrest := ih hfile hbehind
        rw [hlength, ← hsplit] at hrest
        -- the first heredoc ends before the body that is written over
        refine of_cons_overwrite hm (overwrite_of_outside (by omega)) ?_ ?_ hrest
        · intro l hl
          have hl' := htaken.bounds l hl
          rw [overwrite_of_outside (by omega)]
          exact hnone l hl
        · rw [map_overwrite_of_outside htaken (by omega), withBody, if_neg hhere]

end Captured

namespace LogicalLine

open Heredoc

variable {escape : Char} {x : Heredoc} {u : Nat → Text} {first : PhysicalLine}
  {before ls rest : List PhysicalLine} {l : LogicalLine} {f : Failure}

/-! ## Logical lines -/

/-- Whether a logical line is another one with its heredocs changed.  What stands on its lines may
differ, as it does where bodies do. -/
structure Changed (g : Heredoc → Heredoc) (l l' : LogicalLine) : Prop where
  lines : l'.lines = l.lines
  text : l'.text = l.text
  heredocs : l'.heredocs = l.heredocs.map g

/-- A logical line that a heredoc is not on does not change with it. -/
theorem changed_of_not_mem {body : Text} (h : x ∉ l.heredocs) : l.Changed (x.withBody body) l :=
  ⟨rfl, rfl, (map_withBody_of_not_mem h).symm⟩

/-- Logical lines behind a heredoc do not change with it. -/
theorem changed_of_behind (body : Text) (escape : Char) (hfile : Numbered 1 (before ++ ls))
    (hlt : x.lines.first < x.lines.last) (hx : x.lines.last ≤ before.length) :
    List.Forall₂ (Changed (x.withBody body)) (readAll escape ls).1
        (readAll escape (ls.map (x.overwrite u))).1 ∧
      (readAll escape (ls.map (x.overwrite u))).2 = (readAll escape ls).2 := by
  have hls := (numbered_append.mp hfile).2
  rw [map_overwrite_of_outside hls (by omega)]
  refine ⟨List.forall₂_same.mpr fun l hl => changed_of_not_mem fun hmem => ?_, rfl⟩
  obtain ⟨hfirst, haccounts⟩ := (accounts_of_readAll escape hfile).2 l hl
  have hbounds := haccounts.bounds x hmem
  omega

/-- The text of a logical line is joined from the same lines if a body behind it is written over. -/
theorem joined_overwrite (hfile : Numbered 1 (before ++ first :: ls))
    (hx : x ∈ capturedAt escape first ls) :
    let j := Joined.of escape first.text ls
    Joined.of escape first.text (ls.map (x.overwrite u)) =
      ⟨j.text, j.joined, j.rest.map (x.overwrite u)⟩ := by
  obtain ⟨hsplit, hlength, htext⟩ := split_of_joined escape hfile
  have hparts := Joined.joined_append_rest escape first.text ls
  have hown := Joined.of_joined escape first.text ls
  have hends : (Joined.of escape first.text ls).rest ≠ [] →
      Joined.goesOn escape first.text (Joined.of escape first.text ls).joined = false := by
    intro hrest
    have hgo := Joined.goesOn_of_rest hrest []
    rwa [List.append_nil] at hgo
  rw [capturedAt] at hx
  generalize Joined.of escape first.text ls = j at *
  rw [← hlength] at hx
  rw [hsplit] at hfile
  have hbounds := bounds_of_captured hfile hx
  have hjoined : j.joined.map (x.overwrite u) = j.joined := by
    refine map_overwrite_of_outside htext.2 (Or.inl ?_)
    rw [List.length_append, List.length_cons] at hbounds
    omega
  -- a heredoc is captured, so there are lines behind the text
  have hrest : j.rest ≠ [] := by
    intro hnil
    rw [hnil, List.length_nil] at hbounds
    omega
  dsimp only
  rw [← hparts, List.map_append, hjoined, Joined.of_append (hends hrest), hown, List.nil_append]

/-- **Where a heredoc is captured for a logical line, writing over its body changes that heredoc of
the logical line**, or the line fails as it did. -/
theorem changed_of_readAt (hfile : Numbered 1 (before ++ first :: ls))
    (hx : x ∈ capturedAt escape first ls)
    (hu : ∀ n, x.lines.first < n → n < x.lines.last → x.marker.isTerminator (u n) = false) :
    (∀ f, readAt escape first ls = .error f →
        readAt escape first (ls.map (x.overwrite u)) = .error f) ∧
      ∀ l rest, readAt escape first ls = .ok (l, rest) →
        ∃ l', readAt escape first (ls.map (x.overwrite u)) = .ok (l', rest.map (x.overwrite u)) ∧
          l.Changed (x.withBody (x.bodyIn ((before ++ first :: ls).map (x.overwrite u)))) l' := by
  obtain ⟨hsplit, hlength, -⟩ := split_of_joined escape hfile
  have hjoined := joined_overwrite (u := u) hfile hx
  rw [readAt_eq, readAt_eq, hjoined]
  rw [capturedAt] at hx
  generalize Joined.of escape first.text ls = j at *
  rw [hsplit] at hfile
  dsimp only at hlength hx ⊢
  rw [← hlength] at hx
  have hcaptured := Captured.of_overwrite hfile hx hu
  rw [hlength, ← hsplit] at hcaptured
  have hlast : lastNumber first ⟨j.text, j.joined, j.rest.map (x.overwrite u)⟩ =
      lastNumber first j := rfl
  rw [hlast, hcaptured]
  cases Captured.of (lastNumber first j) j.rest (markers escape j.text.trim) with
  | error m =>
    refine ⟨fun f hf => hf, ?_⟩
    intro l rest h
    cases h
  | ok c =>
    refine ⟨fun f hf => ?_, ?_⟩
    · cases hf
    · rintro l rest ⟨⟩
      refine ⟨_, rfl, ?_, rfl, rfl⟩
      -- the last of the lines that are taken keeps its number
      have hnumber :
        ((first :: j.joined ++ c.covered.map (x.overwrite u)).getLast?.getD first).number =
          ((first :: j.joined ++ c.covered).getLast?.getD first).number := by
        rw [List.getLast?_append, List.getLast?_append, List.getLast?_map]
        cases c.covered.getLast? with
        | none => rfl
        | some k => exact number_overwrite
      exact congrArg (LineSpan.between first.number) hnumber

/-! ## Files -/

theorem readAll_of_error (hfirst : first.isIdle = false) (h : readAt escape first ls = .error f) :
    readAll escape (first :: ls) = ([], some f) := by
  rw [readAll, if_neg (by rw [hfirst]; decide)]
  split
  · rename_i g hg
    rw [h] at hg
    cases hg
    rfl
  · rename_i line rest hline
    rw [h] at hline
    cases hline

/-- A logical line that ends before a heredoc is read as it was. -/
theorem readAt_of_before (hfile : Numbered 1 (before ++ first :: ls))
    (hfirst : first.isIdle = false) (hread : readAt escape first ls = .ok (l, rest))
    (hx : Captures escape x rest) :
    (∃ taken, before ++ first :: ls = (before ++ first :: taken) ++ rest) ∧
      readAt escape first (ls.map (x.overwrite u)) = .ok (l, rest.map (x.overwrite u)) ∧
      x ∉ l.heredocs := by
  obtain ⟨haccounts, -, taken, htaken, hlast⟩ := accounts_of_readAt hfile hfirst hread
  obtain ⟨own, rfl, hown, hgo⟩ := readAt_extent hread
  obtain rfl := List.append_cancel_right htaken
  have hsplit : before ++ first :: (own ++ rest) = (before ++ first :: own) ++ rest := by simp
  rw [hsplit] at hfile
  have hbounds := hx.bounds hfile
  simp only [List.length_append, List.length_cons] at hbounds
  have hsame : own.map (x.overwrite u) = own := by
    have hnumbered := (numbered_append.mp (numbered_append.mp hfile).1).2.2
    exact map_overwrite_of_outside hnumbered (by omega)
  -- a heredoc is captured from the rest, so there is one
  have hrest : rest ≠ [] := by
    rintro rfl
    cases hx
  refine ⟨⟨own, hsplit⟩, ?_, fun hmem => ?_⟩
  · rw [List.map_append, hsame]
    exact readAt_append hown (hgo hrest) _
  · have hmem := haccounts.bounds x hmem
    omega

/-- The line that some lines begin with stands before the body of a heredoc that is captured from
them. -/
theorem Captures.overwrite_head (h : Captures escape x (first :: ls))
    (hfile : Numbered 1 (before ++ first :: ls)) : x.overwrite u first = first := by
  have hbounds := h.bounds hfile
  have hnumber := (numbered_append.mp hfile).2.1
  exact overwrite_of_outside (by omega)

/-- **If the body of a heredoc is written over, the logical lines stay the same but for that
heredoc**, and the reading ends as it did. -/
theorem changed_of_readAll (hfile : Numbered 1 (before ++ ls)) (hx : Captures escape x ls)
    (hu : ∀ n, x.lines.first < n → n < x.lines.last → x.marker.isTerminator (u n) = false) :
    List.Forall₂ (Changed (x.withBody (x.bodyIn ((before ++ ls).map (x.overwrite u)))))
        (readAll escape ls).1 (readAll escape (ls.map (x.overwrite u))).1 ∧
      (readAll escape (ls.map (x.overwrite u))).2 = (readAll escape ls).2 := by
  induction hx generalizing before with
  | @idle l ls hl hx ih =>
    rw [List.map_cons, (Captures.idle hl hx).overwrite_head hfile, readAll_of_idle hl,
      readAll_of_idle hl]
    rw [List.append_cons] at hfile ⊢
    exact ih hfile
  | @here l ls hl hx =>
    rw [List.map_cons, (Captures.here hl hx).overwrite_head hfile]
    obtain ⟨herror, hok⟩ := changed_of_readAt hfile hx hu
    rcases hread : readAt escape l ls with f | ⟨line, rest⟩
    · rw [readAll_of_error hl hread, readAll_of_error hl (herror f hread)]
      exact ⟨List.Forall₂.nil, rfl⟩
    · obtain ⟨line', hread', hchanged⟩ := hok line rest hread
      rw [readAll_of_ok hl hread, readAll_of_ok hl hread']
      -- the lines after this one stand behind the heredoc
      obtain ⟨haccounts, -, taken, rfl, hlast⟩ := accounts_of_readAt hfile hl hread
      have hinside := (bounds_of_capturedAt hfile hx).2.1
      rw [capturedAt_eq hread] at hx
      have hbounds := haccounts.bounds x hx
      have hsplit : before ++ l :: (taken ++ rest) = (before ++ l :: taken) ++ rest := by simp
      rw [hsplit] at hfile
      obtain ⟨hlines, hfailure⟩ := changed_of_behind (u := u)
        (x.bodyIn ((before ++ l :: (taken ++ rest)).map (x.overwrite u))) escape hfile
        hinside (by simp only [List.length_append, List.length_cons]; omega)
      exact ⟨List.Forall₂.cons hchanged hlines, hfailure⟩
  | @later l ls rest line hl hread hx ih =>
    rw [List.map_cons, (Captures.later hl hread hx).overwrite_head hfile]
    obtain ⟨⟨taken, hsplit⟩, hread', hnot⟩ := readAt_of_before (u := u) hfile hl hread hx
    rw [readAll_of_ok hl hread, readAll_of_ok hl hread']
    rw [hsplit] at hfile ⊢
    obtain ⟨hlines, hfailure⟩ := ih hfile
    exact ⟨List.Forall₂.cons (changed_of_not_mem hnot) hlines, hfailure⟩

end LogicalLine

/-! ## Preambles -/

/-- Where a preamble ends is settled by the line after it, whatever follows that. -/
theorem Preamble.readOn_append {honor : Bool} {p q : Preamble} {ls rest : List PhysicalLine}
    {l : PhysicalLine} (h : readOn honor p ls = ⟨q, .ok (l :: rest)⟩) :
    ∃ before, ls = before ++ l :: rest ∧
      ∀ more, readOn honor p (before ++ l :: more) = ⟨q, .ok (l :: more)⟩ := by
  induction ls generalizing p with
  | nil => cases h
  | cons k ks ih =>
    rw [readOn] at h
    have hmore : ∀ r, readOn honor r ks = ⟨q, .ok (l :: rest)⟩ →
        (∀ js, readOn honor p (k :: js) = readOn honor r js) →
        ∃ before, k :: ks = before ++ l :: rest ∧
          ∀ more, readOn honor p (before ++ l :: more) = ⟨q, .ok (l :: more)⟩ := by
      intro r hr hstep
      obtain ⟨before, rfl, hbefore⟩ := ih hr
      exact ⟨k :: before, rfl, fun more => (hstep _).trans (hbefore more)⟩
    have hstop : (⟨p, .ok (k :: ks)⟩ : Reading) = ⟨q, .ok (l :: rest)⟩ →
        (∀ js, readOn honor p (k :: js) = ⟨p, .ok (k :: js)⟩) →
        ∃ before, k :: ks = before ++ l :: rest ∧
          ∀ more, readOn honor p (before ++ l :: more) = ⟨q, .ok (l :: more)⟩ := by
      intro hr hstep
      cases hr
      exact ⟨[], rfl, hstep⟩
    split at h
    · rename_i hempty
      exact hmore p h fun js => by rw [readOn, if_pos hempty]
    · rename_i hempty
      split at h
      · rename_i hnone
        exact hstop h fun js => by rw [readOn, if_neg hempty, hnone]
      · rename_i name value hdirective
        split at h
        · rename_i htake
          refine hstop h fun js => ?_
          rw [readOn, if_neg hempty, hdirective]
          dsimp only
          rw [htake]
        · cases h
        · rename_i r htake
          refine hmore r h fun js => ?_
          rw [readOn, if_neg hempty, hdirective]
          dsimp only
          rw [htake]

/-! ## Layouts -/

namespace Layout

variable {honor : Bool} {ts ts' : List Text} {x : Heredoc} {u : Nat → Text}

/-- Whether a layout is another one with its heredocs changed. -/
structure Changed (g : Heredoc → Heredoc) (layout layout' : Layout) : Prop where
  preamble : layout'.preamble = layout.preamble
  lines : List.Forall₂ (LogicalLine.Changed g) layout.lines layout'.lines
  failure : layout'.failure = layout.failure

/-- **If the body of a heredoc is written over, the file is read as it was but for that
heredoc.** -/
theorem changed_of_read (hx : Captures honor ts x)
    (hfile : PhysicalLine.ofLines ts' = (PhysicalLine.ofLines ts).map (x.overwrite u))
    (hu : ∀ n, x.lines.first < n → n < x.lines.last → x.marker.isTerminator (u n) = false) :
    Changed (x.withBody (x.bodyIn (PhysicalLine.ofLines ts'))) (read honor ts)
      (read honor ts') := by
  obtain ⟨p, ls, hp, hls⟩ := hx
  have hnumbered : Numbered 1 (PhysicalLine.ofLines ts) := numbered_numberFrom 1 ts
  rcases ls with _ | ⟨l, rest⟩
  · cases hls
  · obtain ⟨before, hsplit, hread⟩ := Preamble.readOn_append hp
    rw [hsplit] at hnumbered
    have hbounds := hls.bounds hnumbered
    -- the preamble and the line that ends it stand before the body
    have hhead := hls.overwrite_head (u := u) hnumbered
    have hbefore : before.map (x.overwrite u) = before :=
      Heredoc.map_overwrite_of_outside (numbered_append.mp hnumbered).1 (by omega)
    have hp' : Preamble.read honor (PhysicalLine.ofLines ts') =
        ⟨p, .ok ((l :: rest).map (x.overwrite u))⟩ := by
      rw [hfile, hsplit, List.map_append, hbefore, List.map_cons, hhead]
      exact hread _
    obtain ⟨hlines, hfailure⟩ := LogicalLine.changed_of_readAll hnumbered hls hu
    rw [← hsplit, ← hfile] at hlines
    rw [read, read, hp, hp']
    exact ⟨rfl, hlines, hfailure⟩

end Layout

/-! ## Other lines for a body -/

theorem PhysicalLine.numberFrom_append (n : Nat) (ts us : List Text) :
    numberFrom n (ts ++ us) = numberFrom n ts ++ numberFrom (n + ts.length) us := by
  induction ts generalizing n with
  | nil => rfl
  | cons t ts ih =>
    rw [List.cons_append, numberFrom, numberFrom, ih, List.cons_append, List.length_cons,
      Nat.add_assoc, Nat.add_comm 1]

namespace Heredoc

/-- The lines of a file with other lines in place of the body of a heredoc. -/
def rewrite (x : Heredoc) (us ts : List Text) : List Text :=
  ts.take x.lines.first ++ (us ++ ts.drop (x.lines.last - 1))

/-- The body that lines make up. -/
def bodyOf (x : Heredoc) (us : List Text) : Text :=
  Text.join ['\n'] (us.map fun t => x.marker.content (dropReturn t))

variable {x : Heredoc} {ts us : List Text} {n : Nat}

/-- Lines between the ends of a heredoc are written over one by one. -/
theorem map_overwrite_numberFrom (hn : 1 < n) (hlength : ts.length = us.length)
    (hfirst : x.lines.first < n) (hlast : n + us.length ≤ x.lines.last) :
    (numberFrom n ts).map (x.overwrite fun k => dropReturn (us[k - n]?.getD [])) =
      numberFrom n us := by
  refine List.ext_getElem? fun i => ?_
  rw [List.getElem?_map, getElem?_numberFrom, getElem?_numberFrom]
  by_cases hi : i < us.length
  · rw [List.getElem?_eq_getElem hi, List.getElem?_eq_getElem (hlength ▸ hi)]
    have hinside : x.lines.first < n + i ∧ n + i < x.lines.last := by omega
    have hfile : ¬ n + i = 1 := by omega
    simp only [Option.map_some, overwrite, if_pos hinside, if_neg hfile, Nat.add_sub_cancel_left,
      List.getElem?_eq_getElem hi, Option.getD_some]
  · rw [List.getElem?_eq_none (by omega), List.getElem?_eq_none (by omega)]
    rfl

/-- The lines of a file around the body of a heredoc. -/
theorem ofLines_rewrite (us : List Text) (hlt : x.lines.first < x.lines.last)
    (hlast : x.lines.last ≤ ts.length) :
    ofLines (x.rewrite us ts) = numberFrom 1 (ts.take x.lines.first) ++
      (numberFrom (x.lines.first + 1) us ++
        numberFrom (x.lines.first + 1 + us.length) (ts.drop (x.lines.last - 1))) := by
  rw [ofLines, rewrite, numberFrom_append, numberFrom_append,
    List.length_take_of_le (by omega), Nat.add_comm 1]

/-- A file has the body that it has. -/
theorem exists_rewrite_eq (hlt : x.lines.first < x.lines.last) (hlast : x.lines.last ≤ ts.length) :
    ∃ bs, x.lines.first + bs.length + 1 = x.lines.last ∧ x.rewrite bs ts = ts := by
  have hrest := List.take_append_drop (x.lines.last - 1 - x.lines.first) (ts.drop x.lines.first)
  have hdrop : x.lines.first + (x.lines.last - 1 - x.lines.first) = x.lines.last - 1 := by omega
  rw [List.drop_drop, hdrop] at hrest
  refine ⟨(ts.drop x.lines.first).take (x.lines.last - 1 - x.lines.first), ?_, ?_⟩
  · rw [List.length_take, List.length_drop]
    omega
  · rw [rewrite, hrest, List.take_append_drop]

/-- Putting as many lines in place of a body as it has is writing over it. -/
theorem ofLines_rewrite_eq_map (hpos : 0 < x.lines.first) (hlast : x.lines.last ≤ ts.length)
    (hlength : x.lines.first + us.length + 1 = x.lines.last) :
    ofLines (x.rewrite us ts) = (ofLines ts).map
      (x.overwrite fun k => dropReturn (us[k - (x.lines.first + 1)]?.getD [])) := by
  have hlt : x.lines.first < x.lines.last := by omega
  obtain ⟨bs, hbody, hself⟩ := exists_rewrite_eq hlt hlast
  have hlines := ofLines_rewrite bs hlt hlast
  have hhead : (ts.take x.lines.first).length = x.lines.first :=
    List.length_take_of_le (by omega)
  have hsame : bs.length = us.length := by omega
  rw [hself] at hlines
  rw [ofLines_rewrite us hlt hlast, hlines, List.map_append, List.map_append,
    map_overwrite_of_outside (numbered_numberFrom 1 _) (by rw [length_numberFrom]; omega),
    map_overwrite_numberFrom (by omega) hsame (by omega) (by omega),
    map_overwrite_of_outside (numbered_numberFrom _ _) (by omega), hsame]

/-- The body of a heredoc is what the lines in its place make up. -/
theorem bodyIn_rewrite (hpos : 0 < x.lines.first) (hlast : x.lines.last ≤ ts.length)
    (hlength : x.lines.first + us.length + 1 = x.lines.last) :
    x.bodyIn (ofLines (x.rewrite us ts)) = x.bodyOf us := by
  have hhead : (ts.take x.lines.first).length = x.lines.first :=
    List.length_take_of_le (by omega)
  have hnumbered : Numbered 1 (ofLines (x.rewrite us ts)) := numbered_numberFrom 1 _
  have htexts := map_text_numberFrom (n := x.lines.first + 1) (by omega) us
  rw [ofLines_rewrite us (by omega) hlast] at hnumbered ⊢
  rw [bodyIn, slice_of_numbered hnumbered (by rw [length_numberFrom, hhead])
    (by rw [length_numberFrom]; omega)]
  have hcontent := congrArg (List.map x.marker.content) htexts
  rw [List.map_map, List.map_map] at hcontent
  exact congrArg (Text.join ['\n']) hcontent

end Heredoc

namespace Layout

variable {honor : Bool} {ts us : List Text} {x : Heredoc}

/-- **If other lines that do not end a heredoc are put in place of its body, the file is read as it
was but for that heredoc.** -/
theorem changed_of_rewrite (hx : Captures honor ts x)
    (hlength : x.lines.first + us.length + 1 = x.lines.last)
    (hus : ∀ t ∈ us, x.marker.isTerminator (dropReturn t) = false) :
    Changed (x.withBody (x.bodyOf us)) (read honor ts) (read honor (x.rewrite us ts)) := by
  obtain ⟨hpos, -, hlast⟩ := hx.bounds
  rw [← Heredoc.bodyIn_rewrite hpos hlast hlength]
  refine changed_of_read hx (Heredoc.ofLines_rewrite_eq_map hpos hlast hlength) ?_
  intro n hfirst hlt
  have hn : n - (x.lines.first + 1) < us.length := by omega
  rw [List.getElem?_eq_getElem hn]
  exact hus _ (List.getElem_mem hn)

end Layout

end Containerfile
