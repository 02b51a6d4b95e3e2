import Containerfile.Proofs.Text.Lines
import Containerfile.Proofs.Text.Trim

/-! # Texts on one line

No way of taking a text apart makes line feeds, and putting texts together makes none but those of
the texts. -/
namespace Containerfile.Text

variable {t u : Text} {c sep : Char}

/-! ## Putting together -/

@[simp] theorem oneLine_nil : OneLine [] := List.not_mem_nil

@[simp] theorem oneLine_cons : OneLine (c :: t) ↔ c ≠ '\n' ∧ OneLine t := by
  rw [OneLine, List.mem_cons, not_or]
  constructor
  · rintro ⟨hc, ht⟩
    exact ⟨Ne.symm hc, ht⟩
  · rintro ⟨hc, ht⟩
    exact ⟨Ne.symm hc, ht⟩

@[simp] theorem oneLine_append : OneLine (t ++ u) ↔ OneLine t ∧ OneLine u := by
  rw [OneLine, List.mem_append, not_or]
  rfl

@[simp] theorem oneLine_flatMap {α : Type} {l : List α} {f : α → Text} :
    OneLine (l.flatMap f) ↔ ∀ a ∈ l, OneLine (f a) := by
  rw [OneLine, List.mem_flatMap]
  constructor
  · intro h a ha hn
    exact h ⟨a, ha, hn⟩
  · rintro h ⟨a, ha, hn⟩
    exact h a ha hn

/-! ## Taking apart -/

theorem OneLine.trim (h : OneLine t) : OneLine t.trim :=
  h.sublist fun _ hc => (trim_isInfix t).subset hc

theorem OneLine.trimStart (h : OneLine t) : OneLine t.trimStart :=
  h.sublist fun _ hc => (trimStart_isSuffix t).subset hc

theorem OneLine.firstWord (h : OneLine t) :
    OneLine t.firstWord.1 ∧ OneLine t.firstWord.2 := by
  constructor
  · exact h.trim.sublist fun _ hc => List.takeWhile_subset _ hc
  · have hdrop : OneLine (t.trim.dropWhile (!isBlank ·)) :=
      h.trim.sublist fun _ hc => List.dropWhile_subset _ hc
    exact hdrop.trimStart

theorem splitOnce_eq_some {p : Text × Text} (h : splitOnce sep t = some p) :
    t = p.1 ++ sep :: p.2 ∧ sep ∉ p.1 := by
  induction t generalizing p with
  | nil => cases h
  | cons c t ih =>
    rw [splitOnce] at h
    by_cases hc : c = sep
    · rw [if_pos hc] at h
      cases h
      exact ⟨by rw [hc]; rfl, List.not_mem_nil⟩
    · rw [if_neg hc] at h
      obtain ⟨q, hq, rfl⟩ := Option.map_eq_some_iff.mp h
      obtain ⟨ht, hsep⟩ := ih hq
      refine ⟨congrArg (c :: ·) ht, ?_⟩
      rw [List.mem_cons, not_or]
      exact ⟨fun hs => hc hs.symm, hsep⟩

theorem splitOnce_eq_none_iff : splitOnce sep t = none ↔ sep ∉ t := by
  induction t with
  | nil => simp [splitOnce]
  | cons c t ih =>
    rw [splitOnce, List.mem_cons, not_or]
    by_cases hc : c = sep
    · simp [hc]
    · rw [if_neg hc, Option.map_eq_none_iff, ih]
      exact ⟨fun h => ⟨Ne.symm hc, h⟩, And.right⟩

theorem splitOnce_append {w v : Text} (h : sep ∉ w) :
    splitOnce sep (w ++ sep :: v) = some (w, v) := by
  induction w with
  | nil => rw [List.nil_append, splitOnce, if_pos rfl]
  | cons c w ih =>
    rw [List.mem_cons, not_or] at h
    rw [List.cons_append, splitOnce, if_neg (Ne.symm h.1), ih h.2]
    rfl

theorem OneLine.splitOnce {p : Text × Text} (h : OneLine t) (hp : t.splitOnce sep = some p) :
    OneLine p.1 ∧ OneLine p.2 := by
  rw [(splitOnce_eq_some hp).1, oneLine_append, oneLine_cons] at h
  exact ⟨h.1, h.2.2⟩

theorem splitLast_eq_none {t : Text} (h : splitLast sep t = none) : sep ∉ t := by
  induction t with
  | nil => exact List.not_mem_nil
  | cons c t ih =>
    rw [splitLast] at h
    split at h
    · cases h
    · rename_i ht
      split at h
      · cases h
      · rename_i hc
        rw [List.mem_cons, not_or]
        exact ⟨fun hs => hc hs.symm, ih ht⟩

theorem splitLast_eq_some {p : Text × Text} (h : splitLast sep t = some p) :
    t = p.1 ++ sep :: p.2 ∧ sep ∉ p.2 := by
  induction t generalizing p with
  | nil => cases h
  | cons c t ih =>
    rw [splitLast] at h
    split at h
    · rename_i q hq
      cases h
      obtain ⟨ht, hsep⟩ := ih hq
      exact ⟨congrArg (c :: ·) ht, hsep⟩
    · rename_i ht
      split at h
      · rename_i hc
        cases h
        exact ⟨by rw [hc]; rfl, splitLast_eq_none ht⟩
      · cases h

theorem splitLast_eq_none_iff : splitLast sep t = none ↔ sep ∉ t := by
  refine ⟨splitLast_eq_none, fun h => ?_⟩
  cases hs : splitLast sep t with
  | none => rfl
  | some p =>
    rw [(splitLast_eq_some hs).1] at h
    exact absurd (List.mem_append_right _ List.mem_cons_self) h

end Containerfile.Text
