import Containerfile.Proofs.Word.Split

/-! # Words and the gaps between them

Splitting a text loses nothing: the text is its words in their order, with a gap before the first
one and a gap behind each.  `Word.Segmented` says what words and gaps are, without the splitter.
Words begin with something visible and have no blank that is neither quoted nor escaped; gaps are
blank, are there between any two words, and stand only behind words that end outside quotes.  The
words of a text are the only ones that are segmented in this way (`Word.Segmented.split`), so what
splitting yields is known without running it.

Main statement: `Word.split_segments`. -/
namespace Containerfile.Word

/-- A text of blanks alone. -/
def Gap (t : Text) : Prop := ∀ c ∈ t, isBlank c = true

/-- Words in their order, each with its gap behind it. -/
def spread (ws gaps : List Text) : Text := (List.zipWith (· ++ ·) ws gaps).flatten

/-- Whether a text is words with gaps, one before the first word and one behind each. -/
structure Segmented (escape : Char) (t before : Text) (ws gaps : List Text) : Prop where
  covers : t = before ++ spread ws gaps
  paired : gaps.length = ws.length
  before_blank : Gap before
  blank : ∀ gap ∈ gaps, Gap gap
  /-- There is a blank between any two words. -/
  apart : ∀ gap ∈ gaps.dropLast, gap ≠ []
  visible : ∀ w ∈ ws, w ≠ [] ∧ ∀ c ∈ w.head?, isBlank c = false
  /-- No blank of a word stands outside quotes unescaped. -/
  sheltered : ∀ w ∈ ws, ∀ u c v, w = u ++ c :: v → Shelter.bare.run escape u = .bare →
    isBlank c = false
  /-- A blank stands behind a word only where it is neither quoted nor escaped. -/
  closed : ∀ p ∈ ws.zip gaps, p.2 ≠ [] → Shelter.bare.run escape p.1 = .bare

variable {escape c : Char} {t u w before gap : Text} {ws gaps : List Text} {s : Shelter}

theorem spread_cons (w gap : Text) (ws gaps : List Text) :
    spread (w :: ws) (gap :: gaps) = w ++ (gap ++ spread ws gaps) := by
  simp [spread]

/-! ## Words in which no word ends -/

/-- In a text without bare blanks no word ends. -/
theorem passes_iff_sheltered (he : isBlank escape = false) :
    Passes escape s w (s.run escape w) ↔
      ∀ u c v, w = u ++ c :: v → s.run escape u = .bare → isBlank c = false := by
  induction w generalizing s with
  | nil => simp [Passes]
  | cons a w ih =>
    have hends : ends escape s a = false ↔ (s = .bare → isBlank a = false) := by
      rw [Bool.eq_false_iff]
      constructor
      · rintro h rfl
        by_contra hblank
        refine h (ends_of_blank (eq_true_of_ne_false hblank) ?_)
        rintro rfl
        exact hblank he
      · intro h hend
        obtain ⟨hs, -, hblank⟩ := of_ends hend
        rw [h hs] at hblank
        cases hblank
    rw [Shelter.run_cons, Passes, hends, ih]
    constructor
    · rintro ⟨hfirst, hrest⟩ u c v huv hu
      cases u with
      | nil =>
        cases huv
        exact hfirst hu
      | cons b u =>
        cases huv
        exact hrest u c v rfl hu
    · intro h
      exact ⟨h [] a w rfl, fun u c v huv hu => h (a :: u) c v (congrArg (a :: ·) huv) hu⟩

/-- Blanks before the first word are skipped. -/
theorem split_gap_append (h : Gap gap) (t : Text) : split escape (gap ++ t) = split escape t := by
  induction gap with
  | nil => rfl
  | cons c gap ih =>
    rw [Gap, List.forall_mem_cons] at h
    rw [List.cons_append, split, splitFrom, if_pos h.1]
    exact ih h.2

/-! ## The words of a text -/

theorem segmented_nil (h : Gap t) : Segmented escape t t [] [] where
  covers := by simp [spread]
  paired := rfl
  before_blank := h
  blank := by simp
  apart := by simp
  visible := by simp
  sheltered := by simp
  closed := by simp

/-- A word in front of a text that is segmented, with the gap between them. -/
theorem Segmented.cons (h : Segmented escape t gap ws gaps) (he : isBlank escape = false)
    (hbefore : Gap before) (hw : w ≠ []) (hhead : ∀ c ∈ w.head?, isBlank c = false)
    (hpasses : Passes escape .bare w s) (hclosed : gap ≠ [] → s = .bare)
    (hapart : ws ≠ [] → gap ≠ []) :
    Segmented escape (before ++ (w ++ t)) before (w :: ws) (gap :: gaps) where
  covers := by rw [spread_cons, ← h.covers]
  paired := congrArg (· + 1) h.paired
  before_blank := hbefore
  blank := List.forall_mem_cons.mpr ⟨h.before_blank, h.blank⟩
  apart := by
    cases gaps with
    | nil => simp
    | cons g gaps =>
      rw [List.dropLast_cons_cons, List.forall_mem_cons]
      refine ⟨hapart ?_, h.apart⟩
      rintro rfl
      cases h.paired
  visible := List.forall_mem_cons.mpr ⟨⟨hw, hhead⟩, h.visible⟩
  sheltered := by
    refine List.forall_mem_cons.mpr ⟨?_, h.sheltered⟩
    rw [← hpasses.run_eq] at hpasses
    exact (passes_iff_sheltered he).mp hpasses
  closed := by
    rw [List.zip_cons_cons, List.forall_mem_cons]
    exact ⟨fun hgap => hpasses.run_eq.trans (hclosed hgap), h.closed⟩

theorem exists_gap (t : Text) : ∃ before, Gap before ∧ t = before ++ t.trimStart :=
  ⟨t.takeWhile isBlank, fun _ hc => List.mem_takeWhile_imp hc,
    List.takeWhile_append_dropWhile.symm⟩

/-- **What splitting yields is segmented.** -/
theorem segmented_split (he : isBlank escape = false) (t : Text) :
    ∃ before gaps, Segmented escape t before (split escape t) gaps := by
  obtain ⟨n, hn⟩ : ∃ n, t.length = n := ⟨_, rfl⟩
  induction n using Nat.strong_induction_on generalizing t with
  | _ n ih =>
    obtain ⟨before, hbefore, hcut⟩ := exists_gap t
    cases hsplit : split escape t with
    | nil =>
      refine ⟨t, [], segmented_nil fun c hc => ?_⟩
      by_contra hblank
      -- a text with something visible has a word
      have hne : t.trimStart ≠ [] := by
        intro hnil
        rw [hnil, List.append_nil] at hcut
        rw [hcut] at hc
        exact hblank (hbefore c hc)
      obtain ⟨d, rest, hd⟩ := List.exists_cons_of_ne_nil hne
      have hvisible : isBlank d = false := Text.isBlank_head_trimStart (t := t) (by rw [hd]; rfl)
      rw [hcut, split_gap_append hbefore, hd, split_eq_splitFrom hvisible] at hsplit
      exact splitFrom_some_ne_nil _ _ _ hsplit
    | cons w ws =>
      obtain ⟨u, s, htrim, hw, hhead, hpasses, hu⟩ := of_split_cons hsplit
      rw [htrim] at hcut
      rcases hu with ⟨rfl, rfl⟩ | ⟨c, v, rfl, rfl, hblank, rfl⟩
      · refine ⟨before, [[]], ?_⟩
        rw [hcut]
        exact (segmented_nil (t := []) (by simp [Gap])).cons he hbefore hw hhead hpasses
          (fun h => absurd rfl h) fun h => absurd rfl h
      · have hlength : v.length < n := by
          have hsum := congrArg List.length hcut
          rw [List.length_append, List.length_append, List.length_cons] at hsum
          omega
        obtain ⟨gap, gaps, hrest⟩ := ih v.length hlength v rfl
        -- the blank that ends the word belongs to the gap behind it
        have hgap : Segmented escape (c :: v) (c :: gap) (split escape v) gaps :=
          { hrest with
            covers := congrArg (c :: ·) hrest.covers
            before_blank := List.forall_mem_cons.mpr ⟨hblank, hrest.before_blank⟩ }
        refine ⟨before, (c :: gap) :: gaps, ?_⟩
        rw [hcut]
        exact hgap.cons he hbefore hw hhead hpasses (fun _ => rfl) fun _ => List.cons_ne_nil c gap

/-- Without its first word a text is segmented with the gap behind that word in front. -/
theorem Segmented.tail (h : Segmented escape t before (w :: ws) (gap :: gaps)) :
    Segmented escape (gap ++ spread ws gaps) gap ws gaps where
  covers := rfl
  paired := Nat.succ.inj h.paired
  before_blank := h.blank gap List.mem_cons_self
  blank g hg := h.blank g (List.mem_cons_of_mem _ hg)
  apart g hg := by
    refine h.apart g ?_
    cases gaps with
    | nil => cases hg
    | cons g' gaps => exact List.mem_cons_of_mem _ hg
  visible v hv := h.visible v (List.mem_cons_of_mem _ hv)
  sheltered v hv := h.sheltered v (List.mem_cons_of_mem _ hv)
  closed p hp := h.closed p (List.mem_cons_of_mem _ hp)

/-- **Only its words segment a text.** -/
theorem Segmented.split (h : Segmented escape t before ws gaps) (he : isBlank escape = false) :
    Word.split escape t = ws := by
  induction ws generalizing t before gaps with
  | nil =>
    rw [h.covers, split_gap_append h.before_blank]
    rfl
  | cons w ws ih =>
    obtain ⟨gap, gaps, rfl⟩ := List.exists_cons_of_length_eq_add_one h.paired
    obtain ⟨hw, hhead⟩ := h.visible w List.mem_cons_self
    have hpasses := (passes_iff_sheltered he).mpr (h.sheltered w List.mem_cons_self)
    rw [h.covers, spread_cons, split_gap_append h.before_blank]
    cases gap with
    | nil =>
      -- nothing stands behind the last word only
      have hgaps : gaps = [] := by
        by_contra hne
        obtain ⟨g, gaps, rfl⟩ := List.exists_cons_of_ne_nil hne
        exact h.apart [] (by simp) rfl
      subst hgaps
      have hws : ws = [] := List.length_eq_zero_iff.mp (Nat.succ.inj h.paired).symm
      subst hws
      rw [show spread [] [] = [] from rfl, List.append_nil, List.append_nil]
      exact split_of_passes hw hhead hpasses
    | cons c gap =>
      have hbare : Shelter.bare.run escape w = .bare :=
        h.closed (w, c :: gap) (by simp) (List.cons_ne_nil c gap)
      rw [hbare] at hpasses
      have hblank := h.blank _ List.mem_cons_self c List.mem_cons_self
      have hescape : c ≠ escape := by
        rintro rfl
        rw [he] at hblank
        cases hblank
      -- the blank that ends the word is skipped as well as the rest of the gap
      have hskip : split escape (gap ++ spread ws gaps) =
          split escape (c :: gap ++ spread ws gaps) := by
        rw [split_gap_append h.tail.before_blank,
          split_gap_append fun d hd => h.tail.before_blank d (List.mem_cons_of_mem _ hd)]
      rw [List.cons_append, Whole.split_append ⟨hw, hhead, hpasses⟩ hblank hescape, hskip]
      exact congrArg (w :: ·) (ih h.tail)

/-- Of two words that follow each other the first one ends outside quotes. -/
theorem Segmented.closed_of_dropLast (h : Segmented escape t before ws gaps) :
    ∀ w ∈ ws.dropLast, Shelter.bare.run escape w = .bare := by
  intro w hw
  obtain ⟨k, hk, rfl⟩ := List.mem_iff_getElem.mp hw
  have hlength := h.paired
  rw [List.length_dropLast] at hk
  have hks : k < ws.length := by omega
  have hkg : k < gaps.length := by omega
  rw [List.getElem_dropLast]
  refine h.closed (ws[k], gaps[k]) ?_ (h.apart _ ?_)
  · exact List.mem_iff_getElem.mpr ⟨k, by rw [List.length_zip]; omega, List.getElem_zip⟩
  · exact List.mem_iff_getElem.mpr ⟨k, by rw [List.length_dropLast]; omega, List.getElem_dropLast _⟩

/-- **Splitting is lossless and settles at once.**  The words of a text are those that segment it,
and no others do; all of them but the last end outside quotes with nothing escaped; and joined by
single spaces they are the words of what they make. -/
theorem split_segments (he : isBlank escape = false) (t : Text) :
    (∀ ws, split escape t = ws ↔ ∃ before gaps, Segmented escape t before ws gaps) ∧
      (∀ w ∈ (split escape t).dropLast, Shelter.bare.run escape w = .bare) ∧
      split escape (Text.join [' '] (split escape t)) = split escape t := by
  obtain ⟨before, gaps, hsegmented⟩ := segmented_split he t
  have hclosed := hsegmented.closed_of_dropLast
  refine ⟨fun ws => ⟨?_, ?_⟩, hclosed, ?_⟩
  · rintro rfl
    exact ⟨before, gaps, hsegmented⟩
  · rintro ⟨before', gaps', h⟩
    exact h.split he
  · refine split_join_of_closed ?_ hsegmented.visible
      (fun w hw => (passes_iff_sheltered he).mpr (hsegmented.sheltered w hw)) hclosed
    rintro rfl
    cases he

/-- A blank that is escaped, gaps of several blanks, and quotes that stay open to the end. -/
theorem split_segments_open :
    let t := " a\\ b\t\t'c  d ".toList
    let ws := ["a\\ b".toList, "'c  d ".toList]
    isBlank '\\' = false ∧ (∃ before gaps, Segmented '\\' t before ws gaps) ∧
      Shelter.bare.run '\\' "a\\ b".toList = .bare ∧
      Shelter.bare.run '\\' "'c  d ".toList = .within .single ∧
      split '\\' "a\\ b 'c  d ".toList = ws := by
  intro t ws
  have he : isBlank '\\' = false := by decide
  obtain ⟨hsegmented, hclosed, hjoin⟩ := split_segments he t
  have hsplit : split '\\' t = ws := by decide
  rw [hsplit] at hclosed hjoin
  exact ⟨he, (hsegmented ws).mp hsplit, hclosed _ List.mem_cons_self, by decide, hjoin⟩

end Containerfile.Word
