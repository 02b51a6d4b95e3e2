import Containerfile.Proofs.Line.Bodies
import Containerfile.Proofs.Line.Unnumbered

/-! # Idle lines between others

A blank line or a comment that is put somewhere into a file changes no more than raw texts and line
numbers, unless it gets into the preamble, where it may be a directive or end the preamble, or into
a heredoc, where it would be part of the body.

A line that is put where the text of an instruction goes on is joined to it and adds nothing
(`Joined.of_insert`).  Anywhere else it is behind all that the logical line before it takes, since
the heredocs of a logical line leave no line between them (`Heredoc.Stacked.covers`), and so it is
left for the lines after that one (`LogicalLine.readAt_insert`).  The lines behind it get other
numbers, which only spans tell (`LogicalLine.readAll_of_texts`).

Main statement: `Layout.read_insert`. -/
namespace Containerfile

open PhysicalLine

/-- A logical line without what depends on the place of its lines: its raw text and all spans. -/
def LogicalLine.bare (l : LogicalLine) : LogicalLine := { l.unnumbered with raw := [] }

/-- Whether the place after the line `n` is outside a heredoc, which goes from the line before its
body to its terminator. -/
def Heredoc.Outside (n : Nat) (x : Heredoc) : Prop := ¬(x.lines.first ≤ n ∧ n < x.lines.last)

/-! ## Continuations -/

/-- **An idle line where a text goes on adds nothing to it.** -/
theorem Joined.of_insert {escape : Char} {t : Text} {e : PhysicalLine}
    {before : List PhysicalLine} (he : e.isIdle = true) (hgo : goesOn escape t before = true)
    (after : List PhysicalLine) :
    ∃ joined, of escape t (before ++ e :: after) =
      ⟨(of escape t (before ++ after)).text, joined, (of escape t (before ++ after)).rest⟩ := by
  induction before generalizing t with
  | nil =>
    obtain ⟨body, hs⟩ := Option.isSome_iff_exists.mp hgo
    exact ⟨_, of_cons_of_idle hs he⟩
  | cons l ls ih =>
    rw [goesOn, Bool.and_eq_true, Option.isSome_iff_exists] at hgo
    obtain ⟨⟨body, hs⟩, hgo⟩ := hgo
    rw [List.cons_append, List.cons_append]
    by_cases hl : l.isIdle = true
    · rw [if_pos hl] at hgo
      obtain ⟨joined, hjoined⟩ := ih hgo
      rw [of_cons_of_idle hs hl, of_cons_of_idle hs hl, hjoined]
      exact ⟨_, rfl⟩
    · rw [if_neg hl] at hgo
      rw [Bool.not_eq_true] at hl
      obtain ⟨joined, hjoined⟩ := ih hgo
      rw [of_cons_of_visible hs hl, of_cons_of_visible hs hl, hjoined]
      exact ⟨_, rfl⟩

/-! ## Heredocs -/

/-- **Heredocs one behind the other leave no place between them.** -/
theorem Heredoc.Stacked.covers {file : List PhysicalLine} {opening last n : Nat}
    {hs : List Heredoc} (h : Stacked file opening hs last) (hn : opening ≤ n) (hlt : n < last) :
    ∃ x ∈ hs, x.lines.first ≤ n ∧ n < x.lines.last := by
  induction hs generalizing opening with
  | nil =>
    have hlast : last = opening := h
    omega
  | cons x hs ih =>
    obtain ⟨hbehind, hrest⟩ := h
    have hopens := hbehind.opens
    by_cases hx : n < x.lines.last
    · exact ⟨x, List.mem_cons_self, by omega, hx⟩
    · obtain ⟨y, hy, hinside⟩ := ih hrest (by omega)
      exact ⟨y, List.mem_cons_of_mem _ hy, hinside⟩

/-- The number of the line before heredocs shows only in a span. -/
theorem Captured.of_opening {opening : Nat} {ls : List PhysicalLine} {ms : List HeredocMarker}
    {c : Captured} (h : of opening ls ms = .ok c) (opening' : Nat) :
    ∃ d, of opening' ls ms = .ok d ∧ d.rest = c.rest ∧
      d.heredocs.map Heredoc.unnumbered = c.heredocs.map Heredoc.unnumbered := by
  cases ms with
  | nil =>
    cases h
    exact ⟨_, rfl, rfl, rfl⟩
  | cons m ms =>
    obtain ⟨body, terminator, rest, d, hm, hd, rfl⟩ := of_cons_eq_ok_iff.mp h
    exact ⟨_, of_cons_eq_ok_iff.mpr ⟨body, terminator, rest, d, hm, hd, rfl⟩, rfl, rfl⟩

namespace LogicalLine

variable {escape : Char} {e first : PhysicalLine}
  {front before after ls ls' rest : List PhysicalLine} {l : LogicalLine}

/-! ## Logical lines -/

/-- A line that is put where the text of a logical line goes on is taken with it. -/
theorem readAt_insert_of_goesOn (he : e.isIdle = true)
    (hgo : Joined.goesOn escape first.text before = true)
    (h : readAt escape first (before ++ after) = .ok (l, rest)) :
    ∃ l', readAt escape first (before ++ e :: after) = .ok (l', rest) ∧ l'.bare = l.bare := by
  obtain ⟨c, hc, rfl, rfl⟩ := readAt_eq_ok_iff.mp h
  obtain ⟨joined, hjoined⟩ := Joined.of_insert he hgo after
  obtain ⟨d, hd, hrest, hheredocs⟩ :=
    Captured.of_opening hc (lastNumber first (Joined.of escape first.text (before ++ e :: after)))
  refine ⟨_, readAt_eq_ok_iff.mpr ⟨d, ?_, rfl, hrest⟩, ?_⟩
  · rw [hjoined] at hd ⊢
    exact hd
  · rw [hjoined]
    simp only [bare, unnumbered, assemble, hheredocs]

/-- A line that is put where the text does not go on, and not into a heredoc, is left behind. -/
theorem readAt_insert_of_ended (hfile : Numbered 1 (front ++ first :: (before ++ after)))
    (hgo : Joined.goesOn escape first.text before = false)
    (h : readAt escape first (before ++ after) = .ok (l, rest))
    (hout : ∀ x ∈ l.heredocs, x.Outside (front.length + 1 + before.length)) :
    ∃ taken more, before = taken ++ more ∧ rest = more ++ after ∧
      readAt escape first (before ++ e :: after) = .ok (l, more ++ e :: after) := by
  obtain ⟨c, hc, rfl, rfl⟩ := readAt_eq_ok_iff.mp h
  have hparts := Joined.joined_append_rest escape first.text before
  obtain ⟨hsplit, hlength, -⟩ := split_of_joined escape hfile
  rw [Joined.of_append hgo] at hc hsplit hlength
  generalize hj : Joined.of escape first.text before = j at *
  dsimp only at hc hsplit hlength
  rw [hsplit] at hfile
  rw [← hlength] at hc
  have hstacked := Captured.stacked hfile hc
  have hcover := Captured.covered_append_rest hc
  have hbefore := congrArg List.length hparts
  simp only [List.length_append, List.length_cons] at hstacked hbefore
  -- the heredocs end where the inserted line stands, or before that
  have hends : c.covered.length ≤ j.rest.length := by
    by_contra hlt
    obtain ⟨x, hx, hinside⟩ :=
      hstacked.covers (n := front.length + 1 + before.length) (by omega) (by omega)
    exact hout x hx hinside
  obtain ⟨more, hmore⟩ : c.covered <+: j.rest :=
    List.prefix_of_prefix_length_le ⟨c.rest, hcover⟩ (List.prefix_append _ _) hends
  have hrest : c.rest = more ++ after := by
    rw [← hmore, List.append_assoc] at hcover
    exact List.append_cancel_left hcover
  refine ⟨j.joined ++ c.covered, more, ?_, hrest, ?_⟩
  · rw [List.append_assoc, hmore, hparts]
  · have hown := Captured.of_covered hc (more ++ e :: after)
    rw [← List.append_assoc, hmore, hlength] at hown
    refine readAt_eq_ok_iff.mpr ⟨⟨c.heredocs, c.covered, more ++ e :: after⟩, ?_, ?_, rfl⟩
    · rw [Joined.of_append hgo, hj]
      exact hown
    · rw [Joined.of_append hgo, Joined.of_append hgo, hj]
      rfl

/-- **An idle line that is put behind the first line of a logical line, and not into a heredoc, is
taken with the logical line or left behind.** -/
theorem readAt_insert (hfile : Numbered 1 (front ++ first :: (before ++ after)))
    (he : e.isIdle = true) (h : readAt escape first (before ++ after) = .ok (l, rest))
    (hout : ∀ x ∈ l.heredocs, x.Outside (front.length + 1 + before.length)) :
    (∃ l', readAt escape first (before ++ e :: after) = .ok (l', rest) ∧ l'.bare = l.bare) ∨
      ∃ taken more, before = taken ++ more ∧ rest = more ++ after ∧
        readAt escape first (before ++ e :: after) = .ok (l, more ++ e :: after) := by
  cases hgo : Joined.goesOn escape first.text before with
  | true => exact Or.inl (readAt_insert_of_goesOn he hgo h)
  | false => exact Or.inr (readAt_insert_of_ended hfile hgo h hout)

/-! ## All logical lines -/

/-- **An idle line that is not put into a heredoc changes no more than raw texts and spans.** -/
theorem readAll_insert (hfile : Numbered 1 (front ++ (before ++ after))) (he : e.isIdle = true)
    (hnone : (readAll escape (before ++ after)).2 = none)
    (hout : ∀ l ∈ (readAll escape (before ++ after)).1,
      ∀ x ∈ l.heredocs, x.Outside (front.length + before.length)) :
    (readAll escape (before ++ e :: after)).2 = none ∧
      (readAll escape (before ++ e :: after)).1.map bare =
        (readAll escape (before ++ after)).1.map bare := by
  generalize hls : before ++ after = ls at *
  fun_induction readAll escape ls generalizing front before with
  | case1 =>
    obtain ⟨rfl, rfl⟩ := List.append_eq_nil_iff.mp hls
    rw [List.nil_append, readAll_of_idle he, readAll_nil]
    exact ⟨rfl, rfl⟩
  | case2 k ks hidle ih =>
    rcases before with _ | ⟨b, before⟩
    · rw [List.nil_append] at hls ⊢
      rw [readAll_of_idle he, hls, readAll_of_idle hidle]
      exact ⟨hnone, rfl⟩
    · rw [List.cons_append, List.cons.injEq] at hls
      obtain ⟨rfl, rfl⟩ := hls
      rw [List.cons_append, readAll_of_idle hidle]
      rw [List.append_cons] at hfile
      refine ih rfl hfile hnone ?_
      intro l hl x hx
      have hx := hout l hl x hx
      simp only [List.length_append, List.length_cons, List.length_nil] at hx ⊢
      rwa [Nat.add_assoc, Nat.zero_add, Nat.add_comm 1]
  | case3 k ks _ f hf => cases hnone
  | case4 k ks hidle line rest hline lines failure hrest ih =>
    rw [Bool.not_eq_true] at hidle
    rcases before with _ | ⟨b, before⟩
    · rw [List.nil_append] at hls ⊢
      rw [readAll_of_idle he, hls, readAll_of_ok hidle hline, hrest]
      exact ⟨hnone, rfl⟩
    · rw [List.cons_append, List.cons.injEq] at hls
      obtain ⟨rfl, rfl⟩ := hls
      rw [List.forall_mem_cons] at hout
      have hplace : front.length + (b :: before).length = front.length + 1 + before.length := by
        rw [List.length_cons]
        omega
      rw [hplace] at hout
      rw [hrest] at ih
      rw [List.cons_append]
      rcases readAt_insert hfile he hline hout.1 with
        ⟨line', hline', hbare⟩ | ⟨taken, more, rfl, rfl, hline'⟩
      · rw [readAll_of_ok hidle hline', hrest, List.map_cons, List.map_cons, hbare]
        exact ⟨hnone, rfl⟩
      · -- the lines behind the logical line are read like a file of their own
        have hsplit : front ++ b :: (taken ++ more ++ after) =
            front ++ b :: taken ++ (more ++ after) := by simp
        rw [hsplit] at hfile
        have hlater := ih rfl hfile hnone ?_
        · rw [readAll_of_ok hidle hline', List.map_cons, List.map_cons, hlater.2]
          exact ⟨hlater.1, rfl⟩
        · intro l hl x hx
          have hx := hout.2 l hl x hx
          simp only [List.length_append, List.length_cons] at hx ⊢
          have hsame : front.length + (taken.length + 1) + more.length =
              front.length + 1 + (taken.length + more.length) := by omega
          rwa [hsame]

/-- Lines with the same texts are read into the same logical lines, spans aside. -/
theorem readAll_of_texts (hls : ls.map PhysicalLine.text = ls'.map PhysicalLine.text)
    (hnone : (readAll escape ls).2 = none) :
    (readAll escape ls').2 = none ∧
      (readAll escape ls').1.map unnumbered = (readAll escape ls).1.map unnumbered := by
  have hidle_of_text : ∀ {k k' : PhysicalLine}, k.text = k'.text → k'.isIdle = k.isIdle := by
    intro k k' hk
    rw [isIdle, isIdle, isEmpty, isEmpty, isComment, isComment, hk]
  fun_induction readAll escape ls generalizing ls' with
  | case1 =>
    rw [List.map_nil, eq_comm, List.map_eq_nil_iff] at hls
    rw [hls, readAll_nil]
    exact ⟨rfl, rfl⟩
  | case2 k ks hidle ih =>
    obtain ⟨k', ks', rfl, hk, hks⟩ := List.map_eq_cons_iff.mp hls.symm
    rw [readAll_of_idle ((hidle_of_text hk.symm).trans hidle)]
    exact ih hks.symm hnone
  | case3 k ks _ f hf => cases hnone
  | case4 k ks hidle line rest hline lines failure hrest ih =>
    rw [Bool.not_eq_true] at hidle
    obtain ⟨k', ks', rfl, hk, hks⟩ := List.map_eq_cons_iff.mp hls.symm
    obtain ⟨line', rest', hline', hsame, htexts⟩ := readAt_of_texts hk.symm hks.symm hline
    rw [hrest] at ih
    obtain ⟨hnone', hlines⟩ := ih htexts.symm hnone
    rw [readAll_of_ok ((hidle_of_text hk.symm).trans hidle) hline', List.map_cons, List.map_cons,
      hsame, hlines]
    exact ⟨hnone', rfl⟩

/-- Where spans alone may differ, nothing else does. -/
theorem map_bare {lines lines' : List LogicalLine}
    (h : lines'.map unnumbered = lines.map unnumbered) : lines'.map bare = lines.map bare := by
  have hraw := congrArg (List.map fun l : LogicalLine => { l with raw := [] }) h
  rw [List.map_map, List.map_map] at hraw
  exact hraw

end LogicalLine

/-! ## Files -/

namespace PhysicalLine

/-- A blank line or a comment says nothing, with a carriage return at its end or without. -/
theorem isIdle_dropReturn (n : Nat) {t : Text} (ht : t.trim = [] ∨ t.trim.head? = some '#') :
    (⟨n, dropReturn t⟩ : PhysicalLine).isIdle = true := by
  rw [isIdle, isEmpty, isComment, Text.trim_dropReturn]
  rcases ht with ht | ht
  · rw [ht]
    rfl
  · rw [ht, beq_self_eq_true, Bool.or_true]

/-- The numbered lines of a file with one more line behind the first ones. -/
theorem ofLines_insert (us vs : List Text) (t : Text) (hus : 0 < us.length) :
    ofLines (us ++ t :: vs) =
      numberFrom 1 us ++ ⟨us.length + 1, dropReturn t⟩ :: numberFrom (us.length + 2) vs := by
  have hne : ¬us.length + 1 = 1 := by omega
  rw [ofLines, numberFrom_append, Nat.add_comm 1, numberFrom, if_neg hne]

end PhysicalLine

namespace Layout

variable {honor : Bool} {us vs : List Text} {t : Text} {first : LogicalLine}

/-- A file whose preamble is read without a failure. -/
theorem read_of_preamble {ts : List Text} {p : Preamble} {ls : List PhysicalLine}
    (h : Preamble.read honor (ofLines ts) = ⟨p, .ok ls⟩) :
    read honor ts =
      ⟨p, (LogicalLine.readAll p.escape ls).1, (LogicalLine.readAll p.escape ls).2⟩ := by
  rw [read, h]

/-- The first lines of a file, if they reach into its first logical line, are the lines of the
preamble, the line that ends it and perhaps others. -/
theorem exists_of_numberFrom {begun rest : List PhysicalLine} {k : PhysicalLine}
    (hfile : ofLines (us ++ vs) = begun ++ k :: rest) (hlength : begun.length < us.length) :
    ∃ before, numberFrom 1 us = begun ++ k :: before ∧
      rest = before ++ numberFrom (us.length + 1) vs := by
  rw [ofLines, numberFrom_append, Nat.add_comm 1, List.append_eq_append_iff] at hfile
  rcases hfile with ⟨more, hbegun, -⟩ | ⟨more, hus, hmore⟩
  · have hlong := congrArg List.length hbegun
    rw [List.length_append, length_numberFrom] at hlong
    omega
  · rcases more with _ | ⟨m, more⟩
    · have hshort := congrArg List.length hus
      rw [length_numberFrom, List.append_nil] at hshort
      omega
    · rw [List.cons_append, List.cons.injEq] at hmore
      obtain ⟨rfl, rfl⟩ := hmore
      exact ⟨more, hus, rfl⟩

/-- **A blank line or a comment that is put between the lines of a file, behind the first line of
the first logical line and not into a heredoc, changes nothing but raw texts and line numbers.**
The preamble stays the same with its directives, its warnings and the escape character; the file is
still read without a failure; and the logical lines are the same in their texts and in all of their
heredocs but the spans. -/
theorem read_insert (hnone : (read honor (us ++ vs)).failure = none)
    (hfirst : (read honor (us ++ vs)).lines.head? = some first)
    (hus : first.lines.first ≤ us.length)
    (hout : ∀ l ∈ (read honor (us ++ vs)).lines, ∀ x ∈ l.heredocs,
      ¬(x.lines.first ≤ us.length ∧ us.length < x.lines.last))
    (ht : t.trim = [] ∨ t.trim.head? = some '#') :
    let r := read honor (us ++ vs)
    let s := read honor (us ++ t :: vs)
    s.preamble = r.preamble ∧ s.failure = none ∧
      s.lines.map LogicalLine.bare = r.lines.map LogicalLine.bare := by
  dsimp only
  rcases hp : Preamble.read honor (ofLines (us ++ vs)) with ⟨p, f | ls⟩
  · rw [read, hp] at hnone
    cases hnone
  · rw [read_of_preamble hp] at hnone hfirst hout ⊢
    rcases ls with _ | ⟨k, rest⟩
    · rw [LogicalLine.readAll_nil] at hfirst
      cases hfirst
    · obtain ⟨begun, hfile, hpreamble⟩ := Preamble.readOn_append hp
      have hnumbered : Numbered 1 (ofLines (us ++ vs)) := numbered_numberFrom 1 _
      rw [hfile] at hnumbered
      -- the preamble ends before the first logical line
      obtain ⟨hbegun, -⟩ := (LogicalLine.accounts_of_readAll p.escape hnumbered).2 first
        (List.mem_of_mem_head? hfirst)
      obtain ⟨before, hbefore, rfl⟩ := exists_of_numberFrom hfile (by omega)
      have hlength := congrArg List.length hbefore
      rw [length_numberFrom, List.length_append] at hlength
      have hout' : ∀ l ∈ (LogicalLine.readAll p.escape
          (k :: before ++ numberFrom (us.length + 1) vs)).1,
          ∀ x ∈ l.heredocs, x.Outside (begun.length + (k :: before).length) := by
        rw [← hlength]
        exact hout
      rw [← List.cons_append] at hnumbered
      obtain ⟨hinsert, hbare⟩ := LogicalLine.readAll_insert hnumbered
        (isIdle_dropReturn (us.length + 1) ht) hnone hout'
      -- the lines behind the new one have other numbers now
      have htexts : (k :: before ++ ⟨us.length + 1, dropReturn t⟩ ::
            numberFrom (us.length + 1) vs).map text =
          (k :: before ++ ⟨us.length + 1, dropReturn t⟩ ::
            numberFrom (us.length + 2) vs).map text := by
        simp only [List.map_append, List.map_cons]
        rw [map_text_numberFrom (by omega), map_text_numberFrom (by omega)]
      obtain ⟨hsame, hunnumbered⟩ := LogicalLine.readAll_of_texts htexts hinsert
      have hp' : Preamble.read honor (ofLines (us ++ t :: vs)) = ⟨p, .ok (k :: before ++
          ⟨us.length + 1, dropReturn t⟩ :: numberFrom (us.length + 2) vs)⟩ := by
        rw [ofLines_insert us vs t (by omega), hbefore, List.append_assoc]
        exact hpreamble _
      rw [read_of_preamble hp']
      exact ⟨rfl, hsame, (LogicalLine.map_bare hunnumbered).trans hbare⟩

/-- A comment between a line that goes on and the next one, in front of a heredoc. -/
theorem read_insert_continued :
    let us := ["FROM a".toList, "RUN cat <<E \\".toList]
    let vs := [" f".toList, "x".toList, "E".toList]
    let t : Text := "\t# c\r".toList
    let r := read true (us ++ vs)
    let s := read true (us ++ t :: vs)
    r.failure = none ∧
      r.lines.head? = some ⟨.single 1, "FROM a".toList, "FROM a".toList, []⟩ ∧
      (∀ l ∈ r.lines, ∀ x ∈ l.heredocs,
        ¬(x.lines.first ≤ us.length ∧ us.length < x.lines.last)) ∧
      t.trim.head? = some '#' ∧ s.preamble = r.preamble ∧ s.failure = none ∧
      s.lines.map LogicalLine.bare = r.lines.map LogicalLine.bare := by
  intro us vs t r s
  have hnone : r.failure = none := by decide +kernel
  have hfirst : r.lines.head? = some ⟨.single 1, "FROM a".toList, "FROM a".toList, []⟩ := by
    decide +kernel
  have hout : ∀ l ∈ r.lines, ∀ x ∈ l.heredocs,
      ¬(x.lines.first ≤ us.length ∧ us.length < x.lines.last) := by decide +kernel
  have ht : t.trim.head? = some '#' := by decide +kernel
  exact ⟨hnone, hfirst, hout, ht, read_insert hnone hfirst (by decide) hout (Or.inr ht)⟩

end Layout

end Containerfile
