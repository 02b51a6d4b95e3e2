import Containerfile.Proofs.Document.Printed
import Containerfile.Proofs.Document.Replay
import Containerfile.Proofs.Line.Unnumbered

/-! # Where printed entries end

The lines of printed entries are read as logical lines again.  If every entry alone is read back,
and does not go on where others follow it, then so are all of them in a row
(`LogicalLine.readAll_of_allReadBack`).  The converse holds too
(`LogicalLine.allReadBack_of_readAll`): a logical line takes at least as many visible lines as its
heredocs weigh, and one more, which is what each printed entry has.  So if the logical lines are
read as the entries, none of them can take a line more or a line less than its entry. -/
namespace Containerfile

open Text

/-- The physical lines of a printed entry that stands alone. -/
def Entry.printedLines (e : Entry) : List PhysicalLine :=
  PhysicalLine.ofLines (Text.lines (e.render ++ ['\n']))

/-- Whether a printed entry is read back as what was printed, line numbers aside, by a reading that
takes all of its lines and no line that may follow it. -/
def Entry.readsBack (cx : Context) (followed : Bool) (e : Entry) : Bool :=
  match e.printedLines with
  | [] => false
  | first :: more =>
    !(followed && Joined.goesOn defaultEscape first.text more) &&
      match LogicalLine.readAt defaultEscape first more with
      | .ok (l, []) =>
        match (Grammar.line l cx).result with
        | .ok i => i.unnumbered == e.instruction.unnumbered
        | .error _ => false
      | _ => false

namespace Entry

variable {e : Entry} {cx : Context} {followed : Bool}

/-- What it means for a printed entry to be read back. -/
theorem readsBack_iff :
    e.readsBack cx followed = true ↔
      ∃ first more l, e.printedLines = first :: more ∧
        LogicalLine.readAt defaultEscape first more = .ok (l, []) ∧
        (followed = true → Joined.goesOn defaultEscape first.text more = false) ∧
        Progress.ReadsAs cx l e.instruction := by
  rw [readsBack]
  cases e.printedLines with
  | nil =>
    constructor
    · intro h
      cases h
    · rintro ⟨first, more, l, h, -⟩
      cases h
  | cons first more =>
    dsimp only
    rw [Bool.and_eq_true, Bool.not_eq_true', Bool.and_eq_false_imp]
    constructor
    · rintro ⟨hgo, h⟩
      split at h
      · rename_i l hl
        split at h
        · rename_i i hi
          exact ⟨first, more, l, rfl, hl, hgo, i, hi, beq_iff_eq.mp h⟩
        · cases h
      · cases h
    · rintro ⟨first', more', l, heq, hl, hgo, i, hi, hsame⟩
      cases heq
      refine ⟨hgo, ?_⟩
      rw [hl]
      dsimp only
      rw [hi]
      exact beq_iff_eq.mpr hsame

/-- The lines of a printed entry alone and among others have the same texts. -/
theorem map_text_printedLines (h : e.instruction.Printable) :
    e.printedLines.map PhysicalLine.text = e.lineTexts := by
  have hlines : Text.lines (e.render ++ ['\n']) =
      (splitAll '\n' e.render).map PhysicalLine.dropReturn := by
    rw [lines_append, lines_nil, List.append_nil]
  have htexts : (Text.lines (e.render ++ ['\n'])).map PhysicalLine.dropReturn = e.lineTexts := by
    rw [hlines]
    rfl
  obtain ⟨first, more, hcons, c, hc, halpha⟩ := lineTexts_eq_cons h
  have hmark : c ≠ PhysicalLine.byteOrderMark := by
    rintro rfl
    exact absurd halpha (by decide)
  rw [printedLines, PhysicalLine.map_text_ofLines hmark, htexts]
  rw [htexts, hcons]
  exact hc

end Entry

/-- Whether entries are read back one after the other after some instructions. -/
def AllReadBack : List Instruction → List Entry → Prop
  | _, [] => True
  | before, e :: es =>
    e.readsBack (Progress.contextAfter before) (!es.isEmpty) = true ∧
      AllReadBack (before ++ [e.instruction]) es

/-- Each entry is read back after the instructions before it. -/
theorem allReadBack_iff {before : List Instruction} {es : List Entry} :
    AllReadBack before es ↔
      ∀ es₁ e es₂, es = es₁ ++ e :: es₂ →
        e.readsBack (Progress.contextAfter (before ++ es₁.map Entry.instruction))
          (!es₂.isEmpty) = true := by
  induction es generalizing before with
  | nil =>
    constructor
    · intro _ es₁ e es₂ h
      exact absurd h.symm (List.append_ne_nil_of_right_ne_nil _ (by simp))
    · intro _
      trivial
  | cons k ks ih =>
    rw [AllReadBack, ih]
    constructor
    · rintro ⟨hk, hks⟩ es₁ e es₂ h
      cases es₁ with
      | nil =>
        cases h
        rw [List.map_nil, List.append_nil]
        exact hk
      | cons k' es₁ =>
        rw [List.cons_append, List.cons.injEq] at h
        obtain ⟨rfl, h⟩ := h
        have hread := hks es₁ e es₂ h
        rw [List.append_assoc] at hread
        exact hread
    · intro h
      refine ⟨?_, ?_⟩
      · have hk := h [] k ks rfl
        rw [List.map_nil, List.append_nil] at hk
        exact hk
      · intro es₁ e es₂ hks
        have hread := h (k :: es₁) e es₂ (congrArg (k :: ·) hks)
        rw [List.append_assoc]
        exact hread

/-- Each entry is read back after the instructions before it in the file. -/
theorem allReadBack_nil_iff {es : List Entry} :
    AllReadBack [] es ↔
      ∀ es₁ e es₂, es = es₁ ++ e :: es₂ →
        e.readsBack (Progress.contextAfter (es₁.map Entry.instruction)) (!es₂.isEmpty) = true := by
  rw [allReadBack_iff]
  simp only [List.nil_append]

/-! ## Visible lines -/

theorem PhysicalLine.visible_eq (ls : List PhysicalLine) :
    visible ls = visibleAll (ls.map PhysicalLine.text) := by
  rw [visible, visibleAll, List.countP_map]
  rfl

/-- The number of visible lines that lines with some heredocs each need. -/
def Heredoc.need : List (List Heredoc) → Nat
  | [] => 0
  | hs :: hss => Heredoc.totalWeight hs + 1 + need hss

/-- The number of visible lines that instructions need. -/
def Instruction.need (is : List Instruction) : Nat := Heredoc.need (is.map Instruction.heredocs)

/-- The number of visible lines that logical lines need. -/
def LogicalLine.need (ls : List LogicalLine) : Nat := Heredoc.need (ls.map LogicalLine.heredocs)

theorem Instruction.need_cons (i : Instruction) (is : List Instruction) :
    need (i :: is) = Heredoc.totalWeight i.heredocs + 1 + need is := rfl

theorem LogicalLine.need_cons (l : LogicalLine) (ls : List LogicalLine) :
    need (l :: ls) = Heredoc.totalWeight l.heredocs + 1 + need ls := rfl

namespace Spaced

variable {xs : Spaced}

/-- The instructions of some entries. -/
def instructions (xs : Spaced) : List Instruction := xs.map fun x => x.2.instruction

theorem need_instructions_cons (x : Bool × Entry) (xs : Spaced) :
    Instruction.need (instructions (x :: xs)) =
      Heredoc.totalWeight x.2.instruction.heredocs + 1 + Instruction.need (instructions xs) :=
  Instruction.need_cons _ _

theorem texts_cons (x : Bool × Entry) (xs : Spaced) :
    texts (x :: xs) = (if x.1 then [[]] else []) ++ (x.2.lineTexts ++ texts xs) := by
  rw [texts, List.flatMap_cons, List.append_assoc]
  rfl

/-- Only no entries need no lines. -/
theorem eq_nil_of_need (h : Instruction.need (instructions xs) ≤ 0) : xs = [] := by
  cases xs with
  | nil => rfl
  | cons x xs =>
    rw [need_instructions_cons] at h
    omega

/-- **Printed entries have as many visible lines as they need.** -/
theorem visibleAll_texts (h : ∀ x ∈ xs, x.2.instruction.Printable) :
    visibleAll xs.texts = Instruction.need (instructions xs) := by
  induction xs with
  | nil => rfl
  | cons x xs ih =>
    rw [List.forall_mem_cons] at h
    have hgap : visibleAll (if x.1 = true then [[]] else []) = 0 := by
      split
      · rfl
      · rfl
    rw [texts_cons, visibleAll_append, visibleAll_append, hgap, Entry.visibleAll_lineTexts h.1,
      ih h.2, need_instructions_cons, Nat.zero_add]

end Spaced

namespace Text

/-- Two beginnings of a text with the same number of visible lines are the same if both end in a
visible line. -/
theorem eq_of_visibleAll {as bs rs ss : List Text} (h : as ++ rs = bs ++ ss)
    (hcount : visibleAll as = visibleAll bs) (has : ∀ t ∈ as.getLast?, t.trim ≠ [])
    (hbs : ∀ t ∈ bs.getLast?, t.trim ≠ []) : as = bs := by
  -- what one of them has more would end in a visible line
  have hnil : ∀ {us vs : List Text}, visibleAll (us ++ vs) = visibleAll us →
      (∀ t ∈ (us ++ vs).getLast?, t.trim ≠ []) → vs = [] := by
    intro us vs hsame hlast
    by_cases hvs : vs = []
    · exact hvs
    · rw [List.getLast?_append_of_ne_nil _ hvs] at hlast
      have hmem := List.getLast?_eq_some_getLast hvs
      have hpos := visibleAll_pos (List.mem_of_getLast? hmem) (hlast _ hmem)
      rw [visibleAll_append] at hsame
      omega
  rcases List.append_eq_append_iff.mp h with ⟨vs, rfl, -⟩ | ⟨vs, rfl, -⟩
  · rw [hnil hcount.symm hbs, List.append_nil]
  · rw [hnil hcount has, List.append_nil]

end Text

namespace LogicalLine

open Progress PhysicalLine

variable {first : PhysicalLine} {ls rest : List PhysicalLine} {xs : Spaced}
  {before is : List Instruction}

/-- **Logical lines take as many visible lines as their heredocs need.** -/
theorem weight_le_visible {escape : Char} (hls : ∀ k ∈ ls, Text.OneLine k.text)
    (h : (readAll escape ls).2 = none) :
    need (readAll escape ls).1 ≤ visible ls := by
  fun_induction readAll escape ls with
  | case1 => exact Nat.zero_le _
  | case2 k ks hidle ih =>
    have hks := ih (fun l hl => hls l (List.mem_cons_of_mem _ hl)) h
    have hmono : visible ks ≤ visible (k :: ks) :=
      List.Sublist.countP_le (List.sublist_cons_self k ks)
    omega
  | case3 k ks hidle f hf => cases h
  | case4 k ks hidle line rest hline lines failure hrest ih =>
    obtain ⟨taken, hks, htaken, -⟩ := readAt_extent hline
    rw [hks, List.forall_mem_cons, List.forall_mem_append] at hls
    have hempty : k.isEmpty = false := by
      rw [isIdle, Bool.or_eq_true, not_or, Bool.not_eq_true] at hidle
      exact hidle.1
    have hweight := weight_lt_visible hempty hls.2.1 htaken
    rw [hrest] at ih
    have hih : need lines ≤ visible rest := ih hls.2.2 h
    have hvisible : visible (k :: ks) = visible (k :: taken) + visible rest := by
      rw [hks, ← List.cons_append, visible_append]
    rw [hvisible, need_cons]
    omega

/-- What a line is read as does not depend on where it stands. -/
theorem readsAs_of_unnumbered {cx : Context} {l l' : LogicalLine} {i : Instruction}
    (hsame : l.unnumbered = l'.unnumbered) (h : ReadsAs cx l i) : ReadsAs cx l' i := by
  obtain ⟨j, hj, hij⟩ := h
  obtain ⟨k, hk, hjk⟩ := Grammar.agree_line hsame j hj
  exact ⟨k, hk, hjk.symm.trans hij⟩

/-- An instruction needs no more than its logical line. -/
theorem weight_of_readsAs {cx : Context} {l : LogicalLine} {i : Instruction}
    (h : ReadsAs cx l i) : Heredoc.totalWeight i.heredocs ≤ Heredoc.totalWeight l.heredocs := by
  obtain ⟨j, hj, hij⟩ := h
  rw [← Instruction.totalWeight_of_unnumbered hij]
  rcases Grammar.heredocs_line j hj with hh | hh
  · rw [hh]
  · rw [hh]
    exact Nat.zero_le _

theorem need_le_weight {ls : List LogicalLine} (h : ReadAs before ls is) :
    Instruction.need is ≤ need ls := by
  induction ls generalizing before is with
  | nil =>
    cases is with
    | nil => exact Nat.le_refl _
    | cons i is => exact h.elim
  | cons l ls ih =>
    cases is with
    | nil => exact h.elim
    | cons i is =>
      have hl := weight_of_readsAs h.1
      have hls := ih h.2
      rw [need_cons, Instruction.need_cons]
      omega

/-! ## Reading printed entries -/

/-- An empty line before an entry is passed over. -/
theorem readAll_of_gap {gap : Bool} {ts : List Text}
    (h : ls.map PhysicalLine.text = (if gap = true then [[]] else []) ++ ts) :
    ∃ ks, ks.map PhysicalLine.text = ts ∧ (∀ k ∈ ks, k ∈ ls) ∧
      readAll defaultEscape ls = readAll defaultEscape ks := by
  cases gap with
  | false => exact ⟨ls, h, fun k hk => hk, rfl⟩
  | true =>
    obtain ⟨k, ks, rfl, hk, hks⟩ := List.map_eq_cons_iff.mp h
    have hidle : k.isIdle = true := by
      rw [isIdle, isEmpty, hk]
      rfl
    exact ⟨ks, hks, fun l hl => List.mem_cons_of_mem _ hl, readAll_of_idle hidle⟩

/-- **Entries that are read back one by one are read back in a row.** -/
theorem readAll_of_allReadBack (hls : ls.map PhysicalLine.text = xs.texts)
    (hprint : ∀ x ∈ xs, x.2.instruction.Printable)
    (hback : AllReadBack before (xs.map Prod.snd)) :
    (readAll defaultEscape ls).2 = none ∧
      ReadAs before (readAll defaultEscape ls).1 (Spaced.instructions xs) := by
  induction xs generalizing ls before with
  | nil =>
    have hnil : ls = [] := List.map_eq_nil_iff.mp hls
    rw [hnil, readAll_nil]
    exact ⟨rfl, trivial⟩
  | cons x xs ih =>
    obtain ⟨gap, e⟩ := x
    rw [List.forall_mem_cons] at hprint
    obtain ⟨he, hxs⟩ := hback
    rw [Spaced.texts_cons] at hls
    obtain ⟨ks, hks, -, hskip⟩ := readAll_of_gap hls
    rw [hskip]
    obtain ⟨first, more, l, hprinted, hl, hgo, hread⟩ := Entry.readsBack_iff.mp he
    have htexts := Entry.map_text_printedLines hprint.1
    rw [hprinted, List.map_cons] at htexts
    -- the lines of the entry in the file have the same texts as those of the entry alone
    obtain ⟨block, rest, rfl, hblock, hrest⟩ := List.map_eq_append_iff.mp hks
    rw [← htexts] at hblock
    obtain ⟨first', more', rfl, hfirst, hmore⟩ := List.map_eq_cons_iff.mp hblock
    obtain ⟨l', hl', hsame⟩ := readAt_all_of_texts hfirst.symm hmore.symm hl
    have hall : readAt defaultEscape first' (more' ++ rest) = .ok (l', rest) := by
      by_cases hlast : xs = []
      · rw [hlast] at hrest
        have hend : rest = [] := List.map_eq_nil_iff.mp hrest
        rw [hend, List.append_nil]
        exact hl'
      · have hfollowed : (!(xs.map Prod.snd).isEmpty) = true := by
          rw [List.isEmpty_map, Bool.not_eq_true', List.isEmpty_eq_false_iff]
          exact hlast
        have hgo' := hgo hfollowed
        rw [← hfirst, ← Joined.goesOn_of_texts hmore] at hgo'
        exact readAt_append hl' hgo' rest
    have hidle : first'.isIdle = false := by
      obtain ⟨t, ts, hcons, hlettered⟩ := Entry.lineTexts_eq_cons hprint.1
      rw [← htexts, List.cons.injEq] at hcons
      apply Lettered.not_idle
      rw [hfirst, hcons.1]
      exact hlettered
    obtain ⟨hfail, hreads⟩ := ih hrest hprint.2 hxs
    rw [List.cons_append, readAll_of_ok hidle hall]
    exact ⟨hfail, readsAs_of_unnumbered hsame.symm hread, hreads⟩

/-- The logical line that is read as the first of some entries takes the lines of that entry. -/
theorem taken_of_readAs {e : Entry} {taken : List PhysicalLine} {l : LogicalLine}
    (hlines : ∀ k ∈ first :: taken ++ rest, Text.OneLine k.text)
    (hfirst : first.isEmpty = false)
    (htexts : (first :: taken ++ rest).map PhysicalLine.text = e.lineTexts ++ Spaced.texts xs)
    (he : e.instruction.Printable) (hxs : ∀ x ∈ xs, x.2.instruction.Printable)
    (hl : readAt defaultEscape first (taken ++ rest) = .ok (l, rest))
    (htaken : readAt defaultEscape first taken = .ok (l, []))
    (hweight : Heredoc.totalWeight e.instruction.heredocs ≤ Heredoc.totalWeight l.heredocs)
    (hrest : Instruction.need (Spaced.instructions xs) ≤ visible rest) :
    (first :: taken).map PhysicalLine.text = e.lineTexts := by
  rw [List.forall_mem_append, List.forall_mem_cons] at hlines
  have hvisible := weight_lt_visible hfirst hlines.1.2 htaken
  -- both parts have at least what they need, and together they have no more
  have hcount : visible (first :: taken) + visible rest =
      visibleAll e.lineTexts + visibleAll (Spaced.texts xs) := by
    rw [← visibleAll_append, ← htexts, ← visible_eq, visible_append]
  have hown := Entry.visibleAll_lineTexts he
  have hothers := Spaced.visibleAll_texts hxs
  have hsame : visibleAll ((first :: taken).map PhysicalLine.text) = visibleAll e.lineTexts := by
    rw [← visible_eq]
    omega
  rw [List.map_append] at htexts
  by_cases hend : rest = []
  · -- nothing is left, so no entry follows
    have hnone : xs = [] := by
      rw [hend] at hrest
      exact Spaced.eq_nil_of_need hrest
    rw [hend, hnone, List.map_nil, List.append_nil] at htexts
    rw [htexts]
    exact List.append_nil _
  · -- more follows, so both end in a visible line and their lengths cannot differ by empty ones
    refine eq_of_visibleAll htexts hsame ?_ (Entry.getLast?_lineTexts he)
    intro t ht
    rw [List.getLast?_map] at ht
    obtain ⟨k, hk, rfl⟩ := Option.map_eq_some_iff.mp ht
    have hempty : k.isEmpty = false := by
      by_cases hnil : taken = []
      · rw [hnil, List.getLast?_singleton] at hk
        rw [← Option.some.inj hk]
        exact hfirst
      · rw [List.getLast?_cons_of_ne_nil hnil] at hk
        exact getLast?_taken_visible hl hend k hk
    rw [isEmpty, List.isEmpty_eq_false_iff] at hempty
    exact hempty

/-- **Entries that are read back in a row are read back one by one.** -/
theorem allReadBack_of_readAll (hlines : ∀ k ∈ ls, Text.OneLine k.text)
    (hls : ls.map PhysicalLine.text = xs.texts)
    (hprint : ∀ x ∈ xs, x.2.instruction.Printable)
    (hfail : (readAll defaultEscape ls).2 = none)
    (hread : ReadAs before (readAll defaultEscape ls).1 (Spaced.instructions xs)) :
    AllReadBack before (xs.map Prod.snd) := by
  induction xs generalizing ls before with
  | nil => trivial
  | cons x xs ih =>
    obtain ⟨gap, e⟩ := x
    rw [List.forall_mem_cons] at hprint
    rw [Spaced.texts_cons] at hls
    obtain ⟨ks, hks, hmem, hskip⟩ := readAll_of_gap hls
    have hkslines : ∀ k ∈ ks, Text.OneLine k.text := fun k hk => hlines k (hmem k hk)
    rw [hskip] at hfail hread
    obtain ⟨t, ts, hcons, hlettered⟩ := Entry.lineTexts_eq_cons hprint.1
    obtain ⟨first, more, rfl, hfirst, -⟩ : ∃ first more, ks = first :: more ∧ first.text = t ∧
        more.map PhysicalLine.text = ts ++ Spaced.texts xs := by
      apply List.map_eq_cons_iff.mp
      rw [hks, hcons]
      rfl
    have hidle : first.isIdle = false := by
      apply Lettered.not_idle
      rw [hfirst]
      exact hlettered
    have hempty : first.isEmpty = false := by
      rw [isIdle, Bool.or_eq_false_iff] at hidle
      exact hidle.1
    obtain ⟨l, rest, hl⟩ := readAt_of_readAll hidle hfail
    rw [readAll_of_ok hidle hl] at hfail hread
    obtain ⟨hreads, hread⟩ := hread
    obtain ⟨taken, rfl, htaken, hgo⟩ := readAt_extent hl
    -- what is left is read as the other entries, so it has the visible lines that they need
    have hrestlines : ∀ k ∈ rest, Text.OneLine k.text := fun k hk =>
      hkslines k (List.mem_cons_of_mem _ (List.mem_append_right _ hk))
    have hneed : Instruction.need (Spaced.instructions xs) ≤ visible rest :=
      (need_le_weight hread).trans (weight_le_visible hrestlines hfail)
    have hblock : (first :: taken).map PhysicalLine.text = e.lineTexts :=
      taken_of_readAs hkslines hempty hks hprint.1 hprint.2 hl htaken (weight_of_readsAs hreads)
        hneed
    have hrest : rest.map PhysicalLine.text = Spaced.texts xs := by
      rw [← List.cons_append, List.map_append, hblock] at hks
      exact List.append_cancel_left hks
    refine ⟨?_, ih hrestlines hrest hprint.2 hfail hread⟩
    have hprinted := Entry.map_text_printedLines hprint.1
    rw [← hblock] at hprinted
    obtain ⟨first', more', hown, hfirst', hmore'⟩ := List.map_eq_cons_iff.mp hprinted
    obtain ⟨l', hl', hsame⟩ := readAt_all_of_texts hfirst'.symm hmore'.symm htaken
    refine Entry.readsBack_iff.mpr ⟨first', more', l', hown, hl', ?_, ?_⟩
    · intro hfollowed
      -- another entry needs a line, so something is left for it
      have hne : rest ≠ [] := by
        intro hnil
        rw [hnil] at hneed
        rw [Spaced.eq_nil_of_need hneed] at hfollowed
        cases hfollowed
      rw [hfirst', Joined.goesOn_of_texts hmore']
      exact hgo hne
    · exact readsAs_of_unnumbered hsame.symm hreads

end LogicalLine

end Containerfile
