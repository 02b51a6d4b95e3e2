import Containerfile.Line.Logical

/-! # Which lines a logical line takes

A logical line takes a run of physical lines and leaves the others as they are
(`LogicalLine.readAt_extent`).  What it is depends on the lines it takes alone.  Whether it could
take more depends on them too: only a line that is still continued where they end would
(`Joined.goesOn`), so anything may be put after lines that do not go on
(`LogicalLine.readAt_append`). -/
namespace Containerfile

/-! ## Continuations -/

namespace Joined

/-- Whether a text that is joined with all of some lines would be joined with one more. -/
def goesOn (escape : Char) (t : Text) : List PhysicalLine → Bool
  | [] => (stripContinuation? escape t).isSome
  | l :: ls =>
    (stripContinuation? escape t).isSome && goesOn escape (if l.isIdle then t else l.text) ls

variable {escape : Char} {t : Text} {l : PhysicalLine} {ls more : List PhysicalLine}

/-- Whether a text would go on is a matter of the texts of the lines. -/
theorem goesOn_of_texts {ls' : List PhysicalLine}
    (h : ls.map PhysicalLine.text = ls'.map PhysicalLine.text) :
    goesOn escape t ls = goesOn escape t ls' := by
  induction ls generalizing t ls' with
  | nil =>
    rw [List.map_nil, eq_comm, List.map_eq_nil_iff] at h
    rw [h]
  | cons l ls ih =>
    obtain ⟨l', ks, rfl, hl, hks⟩ := List.map_eq_cons_iff.mp h.symm
    have hidle : l'.isIdle = l.isIdle := by
      rw [PhysicalLine.isIdle, PhysicalLine.isIdle, PhysicalLine.isEmpty, PhysicalLine.isEmpty,
        PhysicalLine.isComment, PhysicalLine.isComment, hl]
    rw [goesOn, goesOn, hidle, hl, ih hks.symm]

theorem of_cons_of_none (h : stripContinuation? escape t = none) :
    of escape t (l :: ls) = ⟨t, [], l :: ls⟩ := by
  rw [of, h]

theorem of_cons_of_idle {body : Text} (h : stripContinuation? escape t = some body)
    (hl : l.isIdle = true) :
    of escape t (l :: ls) =
      ⟨(of escape t ls).text, l :: (of escape t ls).joined, (of escape t ls).rest⟩ := by
  rw [of, h]
  simp only [hl, if_true]

theorem of_cons_of_visible {body : Text} (h : stripContinuation? escape t = some body)
    (hl : l.isIdle = false) :
    of escape t (l :: ls) =
      ⟨body ++ (of escape l.text ls).text, l :: (of escape l.text ls).joined,
        (of escape l.text ls).rest⟩ := by
  rw [of, h]
  simp only [hl]
  rfl

theorem goesOn_cons {body : Text} (h : stripContinuation? escape t = some body) :
    goesOn escape t (l :: ls) = goesOn escape (if l.isIdle then t else l.text) ls := by
  rw [goesOn, h, Option.isSome_some, Bool.true_and]

/-- Joined lines come first. -/
theorem joined_append_rest (escape : Char) (t : Text) (ls : List PhysicalLine) :
    (of escape t ls).joined ++ (of escape t ls).rest = ls := by
  induction ls generalizing t with
  | nil => rfl
  | cons l ls ih =>
    cases h : stripContinuation? escape t with
    | none => rw [of_cons_of_none h, List.nil_append]
    | some body =>
      cases hl : l.isIdle with
      | true =>
        rw [of_cons_of_idle h hl]
        exact congrArg (l :: ·) (ih t)
      | false =>
        rw [of_cons_of_visible h hl]
        exact congrArg (l :: ·) (ih l.text)

/-- The lines that were joined are all joined without those after them. -/
theorem of_joined (escape : Char) (t : Text) (ls : List PhysicalLine) :
    of escape t (of escape t ls).joined =
      ⟨(of escape t ls).text, (of escape t ls).joined, []⟩ := by
  induction ls generalizing t with
  | nil => rfl
  | cons l ls ih =>
    cases h : stripContinuation? escape t with
    | none =>
      rw [of_cons_of_none h]
      simp only
      rw [of, h]
      rfl
    | some body =>
      cases hl : l.isIdle with
      | true =>
        rw [of_cons_of_idle h hl]
        simp only
        rw [of_cons_of_idle h hl, ih t]
      | false =>
        rw [of_cons_of_visible h hl]
        simp only
        rw [of_cons_of_visible h hl, ih l.text]

/-- A text that was joined with some lines and not with the next one does not go on. -/
theorem goesOn_of_rest (h : (of escape t ls).rest ≠ []) (more : List PhysicalLine) :
    goesOn escape t ((of escape t ls).joined ++ more) = false := by
  induction ls generalizing t with
  | nil => exact absurd rfl h
  | cons l ls ih =>
    cases hs : stripContinuation? escape t with
    | none =>
      rw [of_cons_of_none hs, List.nil_append]
      cases more with
      | nil => rw [goesOn, hs]; rfl
      | cons m more => rw [goesOn, hs]; rfl
    | some body =>
      cases hl : l.isIdle with
      | true =>
        rw [of_cons_of_idle hs hl] at h ⊢
        rw [List.cons_append, goesOn_cons hs, hl]
        exact ih h
      | false =>
        rw [of_cons_of_visible hs hl] at h ⊢
        rw [List.cons_append, goesOn_cons hs, hl]
        exact ih h

/-- **Lines after those that do not go on are left alone.** -/
theorem of_append (h : goesOn escape t ls = false) (more : List PhysicalLine) :
    of escape t (ls ++ more) =
      ⟨(of escape t ls).text, (of escape t ls).joined, (of escape t ls).rest ++ more⟩ := by
  induction ls generalizing t with
  | nil =>
    have hs : stripContinuation? escape t = none := by
      rw [goesOn] at h
      exact Option.isNone_iff_eq_none.mp (by simpa using h)
    cases more with
    | nil => rfl
    | cons m more =>
      rw [List.nil_append, of_cons_of_none hs, of, hs]
      rfl
  | cons l ls ih =>
    cases hs : stripContinuation? escape t with
    | none => rw [List.cons_append, of_cons_of_none hs, of_cons_of_none hs]; rfl
    | some body =>
      rw [goesOn_cons hs] at h
      cases hl : l.isIdle with
      | true =>
        rw [hl, if_pos rfl] at h
        rw [List.cons_append, of_cons_of_idle hs hl, of_cons_of_idle hs hl, ih h]
      | false =>
        rw [hl, if_neg (by decide)] at h
        rw [List.cons_append, of_cons_of_visible hs hl, of_cons_of_visible hs hl, ih h]

/-- The last of the joined lines says something, unless the file ends there. -/
theorem getLast?_joined_visible (h : (of escape t ls).rest ≠ []) :
    ∀ k ∈ (of escape t ls).joined.getLast?, k.isIdle = false := by
  induction ls generalizing t with
  | nil => exact absurd rfl h
  | cons l ls ih =>
    cases hs : stripContinuation? escape t with
    | none =>
      rw [of_cons_of_none hs]
      intro k hk
      cases hk
    | some body =>
      cases hl : l.isIdle with
      | true =>
        rw [of_cons_of_idle hs hl] at h ⊢
        -- the text goes on, so at least one more line was joined
        have hne : (of escape t ls).joined ≠ [] := by
          intro hnil
          have hgo := goesOn_of_rest h []
          rw [hnil, List.nil_append, goesOn, hs] at hgo
          cases hgo
        intro k hk
        simp only at hk
        rw [List.getLast?_cons_of_ne_nil hne] at hk
        exact ih h k hk
      | false =>
        rw [of_cons_of_visible hs hl] at h ⊢
        intro k hk
        simp only at hk
        cases hj : (of escape l.text ls).joined with
        | nil =>
          rw [hj, List.getLast?_singleton, Option.mem_some_iff] at hk
          rw [← hk]
          exact hl
        | cons j js =>
          have hne : (of escape l.text ls).joined ≠ [] := by simp [hj]
          rw [List.getLast?_cons_of_ne_nil hne] at hk
          exact ih h k hk

end Joined

/-! ## Heredocs -/

/-- What capturing a body means: the lines up to the first terminator. -/
theorem HeredocMarker.capture_eq_some_iff {m : HeredocMarker} {ls body rest : List PhysicalLine}
    {terminator : PhysicalLine} :
    m.capture ls = some (body, terminator, rest) ↔
      ls = body ++ terminator :: rest ∧ m.isTerminator terminator.text = true ∧
        ∀ l ∈ body, m.isTerminator l.text = false := by
  induction ls generalizing body with
  | nil => simp [capture]
  | cons l ls ih =>
    rw [capture]
    cases hl : m.isTerminator l.text with
    | true =>
      rw [if_pos rfl]
      constructor
      · intro h
        cases h
        exact ⟨rfl, hl, by simp⟩
      · rintro ⟨hls, hterm, hbody⟩
        cases body with
        | nil =>
          rw [List.nil_append, List.cons.injEq] at hls
          rw [hls.1, hls.2]
        | cons b body =>
          have hb := hbody b List.mem_cons_self
          rw [List.cons_append, List.cons.injEq] at hls
          rw [← hls.1, hl] at hb
          cases hb
    | false =>
      rw [if_neg (by decide)]
      constructor
      · intro h
        obtain ⟨⟨b, t, r⟩, hr, he⟩ := Option.map_eq_some_iff.mp h
        cases he
        obtain ⟨hls, hterm, hbody⟩ := ih.mp hr
        refine ⟨congrArg (l :: ·) hls, hterm, ?_⟩
        intro k hk
        rcases List.mem_cons.mp hk with rfl | hk
        · exact hl
        · exact hbody k hk
      · rintro ⟨hls, hterm, hbody⟩
        cases body with
        | nil =>
          rw [List.nil_append, List.cons.injEq] at hls
          rw [← hls.1, hl] at hterm
          cases hterm
        | cons b body =>
          rw [List.cons_append, List.cons.injEq] at hls
          have hr := ih.mpr ⟨hls.2, hterm, fun k hk => hbody k (List.mem_cons_of_mem _ hk)⟩
          rw [hr, hls.1]
          rfl

namespace Captured

variable {opening : Nat} {ls more : List PhysicalLine} {ms : List HeredocMarker} {c : Captured}

/-- Capturing one more heredoc. -/
theorem of_cons_eq_ok_iff {m : HeredocMarker} :
    of opening ls (m :: ms) = .ok c ↔
      ∃ body terminator rest d, m.capture ls = some (body, terminator, rest) ∧
        of terminator.number rest ms = .ok d ∧
        c = ⟨m.heredoc body opening terminator :: d.heredocs, body ++ terminator :: d.covered,
          d.rest⟩ := by
  rw [of]
  constructor
  · intro h
    cases hm : m.capture ls with
    | none =>
      rw [hm] at h
      cases h
    | some r =>
      obtain ⟨body, terminator, rest⟩ := r
      rw [hm] at h
      cases hd : of terminator.number rest ms with
      | error e =>
        simp only [hd] at h
        cases h
      | ok d =>
        simp only [hd] at h
        cases h
        exact ⟨body, terminator, rest, d, rfl, hd, rfl⟩
  · rintro ⟨body, terminator, rest, d, hm, hd, rfl⟩
    rw [hm]
    simp only [hd]
    rfl

/-- Covered lines come first. -/
theorem covered_append_rest (h : of opening ls ms = .ok c) : c.covered ++ c.rest = ls := by
  induction ms generalizing opening ls c with
  | nil =>
    cases h
    rfl
  | cons m ms ih =>
    obtain ⟨body, terminator, rest, d, hm, hd, rfl⟩ := of_cons_eq_ok_iff.mp h
    rw [(HeredocMarker.capture_eq_some_iff.mp hm).1, ← ih hd]
    simp

/-- **Heredocs depend on the lines that they cover alone.** -/
theorem of_covered (h : of opening ls ms = .ok c) (more : List PhysicalLine) :
    of opening (c.covered ++ more) ms = .ok ⟨c.heredocs, c.covered, more⟩ := by
  induction ms generalizing opening ls c with
  | nil =>
    cases h
    rfl
  | cons m ms ih =>
    obtain ⟨body, terminator, rest, d, hm, hd, rfl⟩ := of_cons_eq_ok_iff.mp h
    obtain ⟨-, hterm, hbody⟩ := HeredocMarker.capture_eq_some_iff.mp hm
    refine of_cons_eq_ok_iff.mpr ⟨body, terminator, d.covered ++ more, _, ?_, ih hd, rfl⟩
    refine HeredocMarker.capture_eq_some_iff.mpr ⟨?_, hterm, hbody⟩
    simp

end Captured

/-! ## Logical lines -/

namespace LogicalLine

/-- The markers of the heredocs that the text of an instruction announces. -/
def markers (escape : Char) (t : Text) : List HeredocMarker :=
  if opensHeredocs t then HeredocMarker.all escape t else []

/-- The number of the last line that belongs to the text of an instruction. -/
def lastNumber (first : PhysicalLine) (j : Joined) : Nat := (j.joined.getLast?.getD first).number

/-- A logical line put together from joined lines and captured heredocs. -/
def assemble (first : PhysicalLine) (j : Joined) (c : Captured) : LogicalLine :=
  let covered := first :: j.joined ++ c.covered
  { lines := .between first.number (covered.getLast?.getD first).number
    raw := Text.join ['\n'] (covered.map PhysicalLine.text)
    text := j.text.trim
    heredocs := c.heredocs }

variable {escape : Char} {first : PhysicalLine} {ls taken rest : List PhysicalLine}
  {l : LogicalLine}

theorem readAt_eq (escape : Char) (first : PhysicalLine) (ls : List PhysicalLine) :
    readAt escape first ls =
      let j := Joined.of escape first.text ls
      match Captured.of (lastNumber first j) j.rest (markers escape j.text.trim) with
      | .error m =>
        .error (.unterminatedHeredoc m.delimiter (.between first.number (lastNumber first j)))
      | .ok c => .ok (assemble first j c, c.rest) := by
  dsimp only
  generalize hj : Joined.of escape first.text ls = j
  rcases hc : Captured.of (lastNumber first j) j.rest (markers escape j.text.trim) with m | c
  · unfold lastNumber markers at hc
    simp only [readAt, hj, hc, lastNumber]
  · unfold lastNumber markers at hc
    simp only [readAt, hj, hc, assemble]

theorem readAt_eq_ok_iff :
    readAt escape first ls = .ok (l, rest) ↔
      let j := Joined.of escape first.text ls
      ∃ c, Captured.of (lastNumber first j) j.rest (markers escape j.text.trim) = .ok c ∧
        assemble first j c = l ∧ c.rest = rest := by
  rw [readAt_eq]
  dsimp only
  generalize Joined.of escape first.text ls = j
  cases Captured.of (lastNumber first j) j.rest (markers escape j.text.trim) with
  | error m =>
    constructor
    · intro h
      cases h
    · rintro ⟨c, h, -⟩
      cases h
  | ok c =>
    constructor
    · intro h
      cases h
      exact ⟨c, rfl, rfl, rfl⟩
    · rintro ⟨d, hd, rfl, rfl⟩
      cases hd
      rfl

/-- **The lines that a logical line takes.**  They come first, they make the same logical line
alone, and if anything is left after them they do not go on. -/
theorem readAt_extent (h : readAt escape first ls = .ok (l, rest)) :
    ∃ taken, ls = taken ++ rest ∧ readAt escape first taken = .ok (l, []) ∧
      (rest ≠ [] → Joined.goesOn escape first.text taken = false) := by
  obtain ⟨c, hc, rfl, rfl⟩ := readAt_eq_ok_iff.mp h
  have hparts := Joined.joined_append_rest escape first.text ls
  have hcover := Captured.covered_append_rest hc
  generalize hj : Joined.of escape first.text ls = j at *
  have hjoined : Joined.of escape first.text j.joined = ⟨j.text, j.joined, []⟩ := by
    rw [← hj]
    exact Joined.of_joined ..
  refine ⟨j.joined ++ c.covered, ?_, ?_, ?_⟩
  · rw [List.append_assoc, hcover, hparts]
  · by_cases hnil : j.rest = []
    · -- every line was joined, so no heredoc covers any
      have hcovered : c.covered = [] := by
        rw [hnil] at hcover
        exact (List.append_eq_nil_iff.mp hcover).1
      rw [hcovered, List.append_nil]
      apply readAt_eq_ok_iff.mpr
      rw [hjoined]
      have hown := Captured.of_covered hc []
      rw [hcovered, List.append_nil] at hown
      refine ⟨_, hown, ?_, rfl⟩
      rw [assemble, assemble, hcovered]
    · -- the text ends before the covered lines, with or without what comes after them
      have hgo : Joined.goesOn escape first.text j.joined = false := by
        rw [← hj] at hnil
        have hgo := Joined.goesOn_of_rest hnil []
        rw [hj, List.append_nil] at hgo
        exact hgo
      apply readAt_eq_ok_iff.mpr
      rw [Joined.of_append hgo, hjoined]
      have hown := Captured.of_covered hc []
      rw [List.append_nil] at hown
      exact ⟨_, hown, rfl, rfl⟩
  · intro hrest
    have hnil : (Joined.of escape first.text ls).rest ≠ [] := by
      rw [hj, ← hcover]
      intro happ
      exact hrest (List.append_eq_nil_iff.mp happ).2
    have hgo := Joined.goesOn_of_rest hnil c.covered
    rw [hj] at hgo
    exact hgo

/-- **Lines may be put after a logical line that does not go on.** -/
theorem readAt_append (h : readAt escape first taken = .ok (l, []))
    (hgo : Joined.goesOn escape first.text taken = false) (more : List PhysicalLine) :
    readAt escape first (taken ++ more) = .ok (l, more) := by
  obtain ⟨c, hc, rfl, hrest⟩ := readAt_eq_ok_iff.mp h
  have hcover := Captured.covered_append_rest hc
  rw [hrest, List.append_nil] at hcover
  apply readAt_eq_ok_iff.mpr
  rw [Joined.of_append hgo]
  dsimp only
  rw [← hcover]
  exact ⟨_, Captured.of_covered hc more, rfl, rfl⟩

/-! ## Files -/

theorem readAll_nil : readAll escape [] = ([], none) := by rw [readAll]

theorem readAll_of_idle (h : first.isIdle = true) :
    readAll escape (first :: ls) = readAll escape ls := by
  rw [readAll, if_pos h]

theorem readAll_of_ok (hfirst : first.isIdle = false)
    (h : readAt escape first ls = .ok (l, rest)) :
    readAll escape (first :: ls) =
      (l :: (readAll escape rest).1, (readAll escape rest).2) := by
  rw [readAll, if_neg (by rw [hfirst]; decide)]
  split
  · rename_i f hf
    rw [h] at hf
    cases hf
  · rename_i line rest' hline
    rw [h] at hline
    cases hline
    rfl

/-- Where no reading of a line fails, a line that is not idle begins a logical line. -/
theorem readAt_of_readAll (hfirst : first.isIdle = false)
    (h : (readAll escape (first :: ls)).2 = none) :
    ∃ l rest, readAt escape first ls = .ok (l, rest) := by
  rw [readAll, if_neg (by rw [hfirst]; decide)] at h
  split at h
  · cases h
  · rename_i line rest hline
    exact ⟨line, rest, hline⟩

end LogicalLine

end Containerfile
