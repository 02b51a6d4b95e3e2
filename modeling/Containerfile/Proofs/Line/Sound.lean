import Containerfile.Proofs.Line.Weight
import Containerfile.Proofs.Text.OneLine

/-! # What files are read into

The lines of a text hold no line feeds.  So the text of every logical line is one line,
and its heredocs have words to end them (`LogicalLine.Sound`); and the values of
directives are one line each with no blank at either end (`Directives.Sound`).
`Layout.sound_read` says so of whole files. -/
namespace Containerfile

/-- A heredoc whose delimiter can end it. -/
def Heredoc.Delimited (h : Heredoc) : Prop := HeredocMarker.isWord h.delimiter = true

/-- A logical line whose text is one line and whose heredocs have words to end them. -/
structure LogicalLine.Sound (l : LogicalLine) : Prop where
  text : Text.OneLine l.text
  heredocs : ∀ h ∈ l.heredocs, h.Delimited

/-! ## Physical lines -/

/-- The lines of a file have no characters but those that were given. -/
theorem PhysicalLine.exists_subset_of_mem {ts : List Text} {n : Nat} {l : PhysicalLine}
    (h : l ∈ numberFrom n ts) : ∃ t ∈ ts, l.text ⊆ t := by
  induction ts generalizing n with
  | nil => cases h
  | cons t ts ih =>
    rcases List.mem_cons.mp h with rfl | h
    · refine ⟨t, List.mem_cons_self, fun c hc => ?_⟩
      have hmark := Text.mem_of_mem_dropReturn hc
      split at hmark
      · cases t with
        | nil => exact hmark
        | cons d t =>
          rw [dropMark] at hmark
          split at hmark
          · exact List.mem_cons_of_mem _ hmark
          · exact hmark
      · exact hmark
    · obtain ⟨u, hu, hsubset⟩ := ih h
      exact ⟨u, List.mem_cons_of_mem _ hu, hsubset⟩

theorem PhysicalLine.oneLine_numberFrom {ts : List Text} (h : ∀ t ∈ ts, Text.OneLine t)
    (n : Nat) : ∀ l ∈ numberFrom n ts, Text.OneLine l.text := by
  intro l hl
  obtain ⟨t, ht, hsubset⟩ := exists_subset_of_mem hl
  exact (h t ht).sublist fun _ hc => hsubset hc

/-- The lines of a text hold no line feeds. -/
theorem PhysicalLine.oneLine_ofLines (t : Text) :
    ∀ l ∈ ofLines t.lines, Text.OneLine l.text :=
  oneLine_numberFrom (fun _ h => Text.oneLine_of_mem_lines h) 1

/-! ## Logical lines -/

theorem stripContinuation?_subset {escape : Char} {t body : Text}
    (h : stripContinuation? escape t = some body) : body ⊆ t := by
  unfold stripContinuation? at h
  dsimp only at h
  split at h
  · cases h
    intro c hc
    have hdrop := List.dropLast_subset _ hc
    rw [Text.dropEndWhile_eq_rdropWhile] at hdrop
    exact (List.rdropWhile_prefix _ t).subset hdrop
  · cases h

/-- Joining lines makes no characters but theirs. -/
theorem Joined.mem_of_mem_text {escape : Char} {t : Text} {ls : List PhysicalLine} {c : Char}
    (h : c ∈ (Joined.of escape t ls).text) : c ∈ t ∨ ∃ l ∈ ls, c ∈ l.text := by
  induction ls generalizing t with
  | nil =>
    rw [Joined.of] at h
    cases hs : stripContinuation? escape t with
    | none =>
      rw [hs] at h
      exact Or.inl h
    | some body =>
      rw [hs] at h
      exact Or.inl (stripContinuation?_subset hs h)
  | cons l ls ih =>
    have hlater : (∃ k ∈ ls, c ∈ k.text) → ∃ k ∈ l :: ls, c ∈ k.text := by
      rintro ⟨k, hk, hc⟩
      exact ⟨k, List.mem_cons_of_mem _ hk, hc⟩
    cases hs : stripContinuation? escape t with
    | none =>
      rw [of_cons_of_none hs] at h
      exact Or.inl h
    | some body =>
      cases hl : l.isIdle with
      | true =>
        rw [of_cons_of_idle hs hl] at h
        exact (ih h).imp_right hlater
      | false =>
        rw [of_cons_of_visible hs hl] at h
        rcases List.mem_append.mp h with h | h
        · exact Or.inl (stripContinuation?_subset hs h)
        · right
          rcases ih h with h | h
          · exact ⟨l, List.mem_cons_self, h⟩
          · exact hlater h

theorem Joined.oneLine_of {escape : Char} {t : Text} {ls : List PhysicalLine}
    (ht : Text.OneLine t) (hls : ∀ l ∈ ls, Text.OneLine l.text) :
    Text.OneLine (Joined.of escape t ls).text := by
  intro hmem
  rcases mem_of_mem_text hmem with hmem | ⟨l, hl, hmem⟩
  · exact ht hmem
  · exact hls l hl hmem

theorem Captured.delimited {opening : Nat} {ls : List PhysicalLine} {ms : List HeredocMarker}
    {c : Captured} (hw : ∀ m ∈ ms, HeredocMarker.isWord m.delimiter = true)
    (h : Captured.of opening ls ms = .ok c) : ∀ k ∈ c.heredocs, k.Delimited := by
  induction ms generalizing opening ls c with
  | nil =>
    cases h
    intro k hk
    cases hk
  | cons m ms ih =>
    obtain ⟨body, terminator, rest, d, -, hd, rfl⟩ := of_cons_eq_ok_iff.mp h
    rw [List.forall_mem_cons] at hw
    rw [List.forall_mem_cons]
    exact ⟨hw.1, ih hw.2 hd⟩

namespace LogicalLine

variable {escape : Char} {first : PhysicalLine} {ls rest : List PhysicalLine} {l : LogicalLine}

theorem sound_of_readAt (hfirst : Text.OneLine first.text)
    (hls : ∀ k ∈ ls, Text.OneLine k.text) (h : readAt escape first ls = .ok (l, rest)) :
    l.Sound := by
  obtain ⟨c, hc, rfl, -⟩ := readAt_eq_ok_iff.mp h
  exact ⟨(Joined.oneLine_of hfirst hls).trim, Captured.delimited isWord_of_mem_markers hc⟩

/-- **All logical lines are sound.** -/
theorem sound_of_readAll (hls : ∀ k ∈ ls, Text.OneLine k.text) :
    ∀ l ∈ (readAll escape ls).1, l.Sound := by
  fun_induction readAll escape ls with
  | case1 =>
    intro l hl
    cases hl
  | case2 k ks _ ih => exact ih fun l hl => hls l (List.mem_cons_of_mem _ hl)
  | case3 k ks _ f hf =>
    intro l hl
    cases hl
  | case4 k ks _ line rest hline lines failure hrest ih =>
    rw [List.forall_mem_cons] at hls
    obtain ⟨taken, hks, -⟩ := readAt_extent hline
    rw [hks, List.forall_mem_append] at hls
    rw [hrest] at ih
    rw [List.forall_mem_cons]
    refine ⟨sound_of_readAt hls.1 ?_ hline, ih hls.2.2⟩
    rw [hks, List.forall_mem_append]
    exact hls.2

end LogicalLine

/-! ## Directives -/

/-- Directives whose values are one line each, and not empty, with no blank at either end. -/
def Directives.Sound (d : Directives) : Prop :=
  ∀ v ∈ d.frontend.toList ++ d.check.toList, v ≠ [] ∧ Text.Trimmed v ∧ Text.OneLine v

namespace Preamble

theorem sound_of_splitDirective {t : Text} {name value : Text} (ht : Text.OneLine t)
    (h : splitDirective t = some (name, value)) :
    value ≠ [] ∧ Text.Trimmed value ∧ Text.OneLine value := by
  unfold splitDirective at h
  split at h
  · rename_i body
    cases hs : Text.splitOnce '=' body with
    | none =>
      rw [hs] at h
      cases h
    | some p =>
      rw [hs] at h
      change (if isDirectiveName p.1.trim && !p.2.trim.isEmpty then
        some (p.1.trim.lower, p.2.trim) else none) = some (name, value) at h
      split at h
      · rename_i hp
        cases h
        rw [Bool.and_eq_true, Bool.not_eq_true'] at hp
        have hbody := (Text.oneLine_cons.mp ht).2
        refine ⟨?_, Text.trimmed_trim _, (hbody.splitOnce hs).2.trim⟩
        intro hnil
        rw [hnil] at hp
        cases hp.2
      · cases h
  · cases h

theorem sound_take {p q : Preamble} {honor : Bool} {name value : Text} {line : Nat}
    (hp : p.directives.Sound) (hv : value ≠ [] ∧ Text.Trimmed value ∧ Text.OneLine value)
    (h : p.take honor name value line = some (.ok q)) : q.directives.Sound := by
  have hparts := List.forall_mem_append.mp hp
  rw [take] at h
  split at h
  · have hsame : ∀ {r : Preamble}, p.takeEscape honor value line = .ok r →
        r.directives.frontend = p.directives.frontend ∧
          r.directives.check = p.directives.check := by
      intro r hr
      rw [takeEscape_eq] at hr
      split at hr
      · cases hr
      · cases hr
        exact ⟨rfl, rfl⟩
    obtain ⟨hfrontend, hcheck⟩ := hsame (Option.some.inj h)
    rw [Directives.Sound, hfrontend, hcheck]
    exact hp
  · split at h
    · cases h
      split
      · exact hp
      · exact List.forall_mem_append.mpr ⟨List.forall_mem_singleton.mpr hv, hparts.2⟩
    · split at h
      · cases h
        split
        · exact hp
        · exact List.forall_mem_append.mpr ⟨hparts.1, List.forall_mem_singleton.mpr hv⟩
      · cases h

theorem sound_readOn (honor : Bool) {p : Preamble} {ls : List PhysicalLine}
    (rest : List PhysicalLine) (hp : p.directives.Sound) (hls : ∀ l ∈ ls, Text.OneLine l.text) :
    (readOn honor p ls).preamble.directives.Sound ∧
      ((readOn honor p ls).rest = .ok rest → ∀ l ∈ rest, Text.OneLine l.text) := by
  induction ls generalizing p with
  | nil =>
    refine ⟨hp, ?_⟩
    intro h
    cases h
    exact hls
  | cons l ls ih =>
    have hstay : (Except.ok (l :: ls) : Except Failure (List PhysicalLine)) = .ok rest →
        ∀ l ∈ rest, Text.OneLine l.text := by
      intro h
      cases h
      exact hls
    have htail := (List.forall_mem_cons.mp hls).2
    have hhead := (List.forall_mem_cons.mp hls).1
    rw [readOn]
    split
    · exact ih hp htail
    · split
      · exact ⟨hp, hstay⟩
      · rename_i name value hsplit
        split
        · exact ⟨hp, hstay⟩
        · refine ⟨hp, ?_⟩
          intro h
          cases h
        · rename_i q hq
          exact ih (sound_take hp (sound_of_splitDirective hhead.trim hsplit) hq) htail

end Preamble

/-- **What every text is read into.** -/
theorem Layout.sound_read (honor : Bool) (t : Text) :
    (Layout.read honor t.lines).preamble.directives.Sound ∧
      ∀ l ∈ (Layout.read honor t.lines).lines, l.Sound := by
  have hlines := PhysicalLine.oneLine_ofLines t
  have hnone : ({} : Preamble).directives.Sound := by
    intro v hv
    cases hv
  rw [Layout.read, Preamble.read]
  rcases hr : Preamble.readOn honor {} (PhysicalLine.ofLines t.lines) with ⟨p, f | ls⟩
  · have hsound := Preamble.sound_readOn honor [] hnone hlines
    rw [hr] at hsound
    refine ⟨hsound.1, ?_⟩
    intro l hl
    cases hl
  · have hsound := Preamble.sound_readOn honor ls hnone hlines
    rw [hr] at hsound
    exact ⟨hsound.1, LogicalLine.sound_of_readAll (hsound.2 rfl)⟩

end Containerfile
