import Containerfile.Proofs.Text.Lines
import Containerfile.Proofs.Text.Trim
import Containerfile.Word.Split

/-! # Splitting and cutting

A bare word has no blank, no quote and no escape character.  Text that is bare words
with single blanks between them is split into these words, and a bare name before a mark
is what stands before it.

In general the first word of a text is the beginning of the text, blanks before it aside, in which
no word ends, and a blank that ends it follows, or nothing (`Word.of_split_cons`). -/
namespace Containerfile.Word

/-- A character that neither ends a word nor changes what the next one stands in. -/
def BareChar (escape c : Char) : Prop :=
  isBlank c = false ∧ Quote.ofChar? c = none ∧ c ≠ escape

/-- A word of such characters. -/
def Bare (escape : Char) (w : Text) : Prop := w ≠ [] ∧ ∀ c ∈ w, BareChar escape c

variable {escape c : Char} {t w : Text} {ws : List Text}

theorem BareChar.step (h : BareChar escape c) : Shelter.bare.step escape c = .bare := by
  simp [Shelter.step, h.2.1, h.2.2]

theorem Bare.blankless (h : Bare escape w) : ∀ c ∈ w, isBlank c = false :=
  fun c hc => (h.2 c hc).1

theorem Bare.trimmed (h : Bare escape w) : Text.Trimmed w :=
  ⟨fun c hc => h.blankless c (List.mem_of_mem_head? hc),
    fun c hc => h.blankless c (List.mem_of_mem_getLast? hc)⟩

theorem ends_of_blank (hb : isBlank c = true) (he : c ≠ escape) : ends escape .bare c = true := by
  simp [ends, hb, he]

/-! ## Splitting -/

/-- No word ends in a text that begins inside a word in `s`, and the place after it stands in
`s'`. -/
def Passes (escape : Char) : Shelter → Text → Shelter → Prop
  | s, [], s' => s = s'
  | s, c :: t, s' => ends escape s c = false ∧ Passes escape (s.step escape c) t s'

variable {s s' s'' : Shelter}

theorem Passes.append (hw : Passes escape s w s') (ht : Passes escape s' t s'') :
    Passes escape s (w ++ t) s'' := by
  induction w generalizing s with
  | nil =>
    cases hw
    exact ht
  | cons c w ih => exact ⟨hw.1, ih hw.2⟩

theorem Passes.of_append (h : Passes escape s (w ++ t) s'') :
    ∃ s', Passes escape s w s' ∧ Passes escape s' t s'' := by
  induction w generalizing s with
  | nil => exact ⟨s, rfl, h⟩
  | cons c w ih =>
    obtain ⟨s', hw, ht⟩ := ih h.2
    exact ⟨s', ⟨h.1, hw⟩, ht⟩

theorem Passes.run_eq (h : Passes escape s w s') : s.run escape w = s' := by
  induction w generalizing s with
  | nil => exact h
  | cons c w ih => exact ih h.2

/-- Inside a word, the characters of such a text are put in front of the first of the words that
follow. -/
theorem Passes.splitFrom_append (hw : Passes escape s w s') :
    splitFrom escape (some s) (w ++ t) = w.foldr extend (splitFrom escape (some s') t) := by
  induction w generalizing s with
  | nil =>
    cases hw
    rfl
  | cons c w ih =>
    rw [List.cons_append, splitFrom, hw.1, ih hw.2]
    rfl

theorem passes_of_bare (hw : ∀ c ∈ w, BareChar escape c) : Passes escape .bare w .bare := by
  induction w with
  | nil => rfl
  | cons c w ih =>
    have hc := hw c List.mem_cons_self
    refine ⟨by simp [ends, hc.1], ?_⟩
    rw [hc.step]
    exact ih fun d hd => hw d (List.mem_cons_of_mem _ hd)

theorem foldr_extend_cons (w u : Text) (ws : List Text) :
    w.foldr extend (u :: ws) = (w ++ u) :: ws := by
  induction w with
  | nil => rfl
  | cons c w ih => rw [List.foldr_cons, ih]; rfl

theorem subset_of_mem_splitFrom {s : Option Shelter} (h : w ∈ splitFrom escape s t) : w ⊆ t := by
  -- a character goes in front of the first word, or there is no word yet
  have hextend : ∀ {c : Char} {u : Text} {ws : List Text}, (∀ v ∈ ws, v ⊆ u) →
      ∀ v ∈ extend c ws, v ⊆ c :: u := by
    intro c u ws hws v hv
    cases ws with
    | nil =>
      rw [List.mem_singleton.mp hv]
      exact List.cons_subset_cons c (List.nil_subset u)
    | cons v' ws =>
      rw [List.forall_mem_cons] at hws
      rcases List.mem_cons.mp hv with rfl | hv
      · exact List.cons_subset_cons c hws.1
      · exact List.subset_cons_of_subset c (hws.2 v hv)
  induction t generalizing s w with
  | nil => cases s <;> simp_all [splitFrom]
  | cons c t ih =>
    cases s with
    | none =>
      rw [splitFrom] at h
      split at h
      · exact List.subset_cons_of_subset c (ih h)
      · exact hextend (fun v hv => ih hv) w h
    | some s =>
      rw [splitFrom] at h
      split at h
      · rcases List.mem_cons.mp h with rfl | h
        · exact List.nil_subset _
        · exact List.subset_cons_of_subset c (ih h)
      · exact hextend (fun v hv => ih hv) w h

/-- Words are made of the characters of their text. -/
theorem subset_of_mem_split (h : w ∈ split escape t) : w ⊆ t := subset_of_mem_splitFrom h

/-- A text that does not begin with a blank begins with a word. -/
theorem split_eq_splitFrom (hc : isBlank c = false) :
    split escape (c :: t) = splitFrom escape (some .bare) (c :: t) := by
  have hends : ends escape .bare c = false := by simp [ends, hc]
  rw [split, splitFrom, splitFrom, hends, hc]
  rfl

/-- **A text in which no word ends is one word.** -/
theorem Passes.split (hc : isBlank c = false) (hw : Passes escape .bare (c :: w) s') :
    split escape (c :: w) = [c :: w] := by
  have hfrom := hw.splitFrom_append (t := [])
  rw [List.append_nil] at hfrom
  rw [split_eq_splitFrom hc, hfrom, splitFrom, foldr_extend_cons, List.append_nil]

/-- A text that begins with something visible and in which no word ends is one word. -/
theorem split_of_passes (hw : w ≠ []) (hhead : ∀ c ∈ w.head?, isBlank c = false)
    (hpasses : Passes escape .bare w s) : split escape w = [w] := by
  obtain ⟨c, u, rfl⟩ := List.exists_cons_of_ne_nil hw
  exact hpasses.split (hhead c rfl)

/-- A text that is split off as it stands where a blank follows: it begins with no blank, no word
ends in it, and it ends outside quotes. -/
structure Whole (escape : Char) (w : Text) : Prop where
  ne_nil : w ≠ []
  head : ∀ c ∈ w.head?, isBlank c = false
  passes : Passes escape .bare w .bare

theorem Bare.whole (hw : Bare escape w) : Whole escape w :=
  ⟨hw.1, hw.trimmed.1, passes_of_bare hw.2⟩

theorem Whole.split (hw : Whole escape w) : Word.split escape w = [w] := by
  obtain ⟨hne, hhead, hpasses⟩ := hw
  exact split_of_passes hne hhead hpasses

theorem Whole.split_append (hw : Whole escape w) (hb : isBlank c = true) (he : c ≠ escape) :
    Word.split escape (w ++ c :: t) = w :: Word.split escape t := by
  obtain ⟨hne, hhead, hpasses⟩ := hw
  obtain ⟨d, u, rfl⟩ := List.exists_cons_of_ne_nil hne
  rw [List.cons_append, split_eq_splitFrom (hhead d rfl), ← List.cons_append,
    hpasses.splitFrom_append, splitFrom, ends_of_blank hb he]
  simp only [if_true, foldr_extend_cons, List.append_nil]
  rfl

/-- **Words are split where they were joined**; the last one may end in quotes. -/
theorem split_join_of_closed (he : escape ≠ ' ') {ws : List Text}
    (hvisible : ∀ w ∈ ws, w ≠ [] ∧ ∀ c ∈ w.head?, isBlank c = false)
    (hpasses : ∀ w ∈ ws, Passes escape .bare w (Shelter.bare.run escape w))
    (hclosed : ∀ w ∈ ws.dropLast, Shelter.bare.run escape w = .bare) :
    split escape (Text.join [' '] ws) = ws := by
  induction ws with
  | nil => rfl
  | cons w ws ih =>
    obtain ⟨hw, hhead⟩ := hvisible w List.mem_cons_self
    have hpass := hpasses w List.mem_cons_self
    cases ws with
    | nil =>
      rw [Text.join, List.intercalate_singleton]
      exact split_of_passes hw hhead hpass
    | cons v ws =>
      rw [List.dropLast_cons_cons, List.forall_mem_cons] at hclosed
      rw [hclosed.1] at hpass
      rw [Text.join_cons_cons, List.append_assoc, List.singleton_append,
        Whole.split_append ⟨hw, hhead, hpass⟩ (by decide) (Ne.symm he)]
      exact congrArg (w :: ·) (ih (fun u hu => hvisible u (List.mem_cons_of_mem _ hu))
        (fun u hu => hpasses u (List.mem_cons_of_mem _ hu)) hclosed.2)

theorem split_join (he : escape ≠ ' ') {ws : List Text} (h : ∀ w ∈ ws, Whole escape w) :
    split escape (Text.join [' '] ws) = ws := by
  have hrun : ∀ w ∈ ws, Shelter.bare.run escape w = .bare := fun w hw => (h w hw).passes.run_eq
  refine split_join_of_closed he (fun w hw => ⟨(h w hw).ne_nil, (h w hw).head⟩) (fun w hw => ?_)
    fun w hw => hrun w (List.dropLast_subset _ hw)
  rw [hrun w hw]
  exact (h w hw).passes

/-- Words that are joined begin with the first of them. -/
theorem head?_join (hw : w ≠ []) (ws : List Text) :
    (Text.join [' '] (w :: ws)).head? = w.head? := by
  obtain ⟨c, u, rfl⟩ := List.exists_cons_of_ne_nil hw
  cases ws with
  | nil => rw [Text.join, List.intercalate_singleton]
  | cons v ws => rw [Text.join_cons_cons]; rfl

theorem join_ne_nil (hw : w ≠ []) (ws : List Text) : Text.join [' '] (w :: ws) ≠ [] := by
  intro hnil
  have hhead := head?_join hw ws
  rw [hnil, List.head?_nil, eq_comm, List.head?_eq_none_iff] at hhead
  exact hw hhead

theorem trimmed_join {ws : List Text} (h : ∀ w ∈ ws, w ≠ [] ∧ Text.Trimmed w) :
    Text.Trimmed (Text.join [' '] ws) := by
  induction ws with
  | nil => exact ⟨by simp [Text.join], by simp [Text.join]⟩
  | cons w ws ih =>
    have hw := h w List.mem_cons_self
    cases ws with
    | nil =>
      rw [Text.join, List.intercalate_singleton]
      exact hw.2
    | cons v ws =>
      have hv := h v (List.mem_cons_of_mem _ List.mem_cons_self)
      rw [Text.join_cons_cons]
      exact Text.trimmed_append hw.1 (join_ne_nil hv.1 ws) hw.2.1
        (ih fun u hu => h u (List.mem_cons_of_mem _ hu)).2

/-! ## The first word -/

theorem splitFrom_some_ne_nil (escape : Char) (s : Shelter) (t : Text) :
    splitFrom escape (some s) t ≠ [] := by
  have hextend : ∀ (c : Char) (ws : List Text), extend c ws ≠ [] := by
    intro c ws
    cases ws <;> simp [extend]
  cases t with
  | nil => simp [splitFrom]
  | cons c t =>
    rw [splitFrom]
    split
    · simp
    · exact hextend c _

/-- The rest of a word, and what follows it: nothing, or a character that ends the word. -/
theorem of_splitFrom_some (h : splitFrom escape (some s) t = w :: ws) :
    ∃ u s', t = w ++ u ∧ Passes escape s w s' ∧
      ((u = [] ∧ ws = []) ∨
        ∃ c v, u = c :: v ∧ ends escape s' c = true ∧ ws = split escape v) := by
  induction t generalizing s w with
  | nil =>
    cases h
    exact ⟨[], s, rfl, rfl, .inl ⟨rfl, rfl⟩⟩
  | cons c t ih =>
    rw [splitFrom] at h
    by_cases hends : ends escape s c = true
    · rw [if_pos hends] at h
      cases h
      exact ⟨c :: t, s, rfl, rfl, .inr ⟨c, t, rfl, hends, rfl⟩⟩
    · rw [if_neg hends] at h
      obtain ⟨w', ws', hrest⟩ := List.exists_cons_of_ne_nil
        (splitFrom_some_ne_nil escape (s.step escape c) t)
      rw [hrest, extend] at h
      cases h
      obtain ⟨u, s', rfl, hpasses, hu⟩ := ih hrest
      exact ⟨u, s', rfl, ⟨Bool.eq_false_iff.mpr hends, hpasses⟩, hu⟩

theorem of_ends (h : ends escape s c = true) : s = .bare ∧ c ≠ escape ∧ isBlank c = true := by
  simp only [ends, Bool.and_eq_true, beq_iff_eq, bne_iff_ne] at h
  exact ⟨h.1.1, h.1.2, h.2⟩

/-- **The first word of a text**, and what follows it: nothing, or a blank that ends the word. -/
theorem of_split_cons (h : split escape t = w :: ws) :
    ∃ u s, t.trimStart = w ++ u ∧ w ≠ [] ∧ (∀ c ∈ w.head?, isBlank c = false) ∧
      Passes escape .bare w s ∧
      ((u = [] ∧ ws = []) ∨
        ∃ c v, u = c :: v ∧ s = .bare ∧ isBlank c = true ∧ ws = split escape v) := by
  induction t with
  | nil => cases h
  | cons c t ih =>
    by_cases hc : isBlank c = true
    · have htrim : Text.trimStart (c :: t) = Text.trimStart t := List.dropWhile_cons_of_pos hc
      rw [split, splitFrom, if_pos hc] at h
      rw [htrim]
      exact ih h
    · have htrim : Text.trimStart (c :: t) = c :: t := List.dropWhile_cons_of_neg hc
      rw [Bool.not_eq_true] at hc
      rw [split_eq_splitFrom hc] at h
      obtain ⟨u, s, ht, hpasses, hu⟩ := of_splitFrom_some h
      have hu : (u = [] ∧ ws = []) ∨
          ∃ c v, u = c :: v ∧ s = .bare ∧ isBlank c = true ∧ ws = split escape v := by
        refine hu.imp_right ?_
        rintro ⟨d, v, hd, hends, hws⟩
        obtain ⟨hbare, -, hblank⟩ := of_ends hends
        exact ⟨d, v, hd, hbare, hblank, hws⟩
      obtain ⟨w', rfl⟩ : ∃ w', w = c :: w' := by
        cases w with
        | cons d w' => exact ⟨w', by rw [(List.cons.inj ht).1]⟩
        | nil =>
          rcases hu with ⟨rfl, -⟩ | ⟨d, v, rfl, -, hblank, -⟩
          · cases ht
          · rw [← (List.cons.inj ht).1, hc] at hblank
            cases hblank
      refine ⟨u, s, htrim.trans ht, List.cons_ne_nil c w', ?_, hpasses, hu⟩
      rintro d ⟨⟩
      exact hc

/-- Words have a first character, which is no blank. -/
theorem head_of_mem_split (h : w ∈ split escape t) : w ≠ [] ∧ ∀ c ∈ w.head?, isBlank c = false := by
  obtain ⟨n, hn⟩ : ∃ n, t.length = n := ⟨_, rfl⟩
  induction n using Nat.strong_induction_on generalizing t with
  | _ n ih =>
    cases hsplit : split escape t with
    | nil =>
      rw [hsplit] at h
      cases h
    | cons v ws =>
      obtain ⟨u, s, ht, hne, hhead, -, hu⟩ := of_split_cons hsplit
      rw [hsplit] at h
      rcases List.mem_cons.mp h with rfl | h
      · exact ⟨hne, hhead⟩
      · rcases hu with ⟨-, rfl⟩ | ⟨c, rest, rfl, -, -, rfl⟩
        · cases h
        · refine ih rest.length ?_ h rfl
          have hle := (Text.trimStart_isSuffix t).length_le
          rw [ht, List.length_append, List.length_cons] at hle
          omega

/-! ## Cutting -/

theorem cutFrom_cons_eq_none_iff {mark : Char} :
    cutFrom escape mark s (c :: t) = none ↔
      ¬ (s = .bare ∧ c = mark) ∧ cutFrom escape mark (s.step escape c) t = none := by
  rw [cutFrom]
  split <;> simp_all

/-- A mark behind a text that has none outside quotes. -/
theorem cutFrom_append {mark : Char} (h : cutFrom escape mark s w = none) :
    cutFrom escape mark s (w ++ t) =
      (cutFrom escape mark (s.run escape w) t).map fun p => (w ++ p.1, p.2) := by
  induction w generalizing s with
  | nil => cases hcut : cutFrom escape mark s t <;> simp [hcut]
  | cons c w ih =>
    obtain ⟨hc, h⟩ := cutFrom_cons_eq_none_iff.mp h
    rw [List.cons_append, cutFrom, if_neg hc, ih h, Option.map_map]
    rfl

/-- What stands before the first mark outside quotes has none, and is outside quotes at its end. -/
theorem of_cutFrom_eq_some {mark : Char} {p : Text × Text}
    (h : cutFrom escape mark s t = some p) :
    t = p.1 ++ mark :: p.2 ∧ cutFrom escape mark s p.1 = none ∧ s.run escape p.1 = .bare := by
  induction t generalizing s p with
  | nil => cases h
  | cons c t ih =>
    rw [cutFrom] at h
    by_cases hc : s = .bare ∧ c = mark
    · rw [if_pos hc] at h
      cases h
      obtain ⟨rfl, rfl⟩ := hc
      exact ⟨rfl, rfl, rfl⟩
    · rw [if_neg hc] at h
      obtain ⟨q, hq, rfl⟩ := Option.map_eq_some_iff.mp h
      obtain ⟨ht, hnone, hrun⟩ := ih hq
      exact ⟨congrArg (c :: ·) ht, cutFrom_cons_eq_none_iff.mpr ⟨hc, hnone⟩, hrun⟩

/-- **A mark behind a name.** -/
theorem cut?_of_name {mark : Char} {name : Text} (hname : Passes escape .bare name .bare)
    (hm : cut? escape mark name = none) :
    cut? escape mark (name ++ mark :: t) = some (name, t) := by
  rw [cut?] at hm ⊢
  rw [cutFrom_append hm, hname.run_eq]
  simp [cutFrom]

theorem cut?_append {mark : Char} {name : Text} (hn : ∀ c ∈ name, BareChar escape c)
    (hm : mark ∉ name) : cut? escape mark (name ++ mark :: t) = some (name, t) := by
  refine cut?_of_name (passes_of_bare hn) ?_
  rw [cut?, Option.eq_none_iff_forall_ne_some]
  intro p hp
  obtain ⟨rfl, -, -⟩ := of_cutFrom_eq_some hp
  exact hm (by simp)

end Containerfile.Word
