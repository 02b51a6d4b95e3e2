import Containerfile.Expansion.Basic
import Containerfile.Proofs.Text.OneLine
import Containerfile.Proofs.Word.Split
import Containerfile.Word.Unquote

/-! # Words on one line

Splitting, cutting and unquoting words make no line feeds, and filling in makes none but those of
the values that are filled in. -/
namespace Containerfile

open Text

/-! ## Words -/

namespace Word

variable {escape : Char} {t : Text}

theorem oneLine_extend {c : Char} {ws : List Text} (hc : c ≠ '\n') (h : ∀ w ∈ ws, OneLine w) :
    ∀ w ∈ extend c ws, OneLine w := by
  cases ws with
  | nil =>
    rw [extend, List.forall_mem_singleton, oneLine_cons]
    exact ⟨hc, oneLine_nil⟩
  | cons w ws =>
    rw [List.forall_mem_cons] at h
    rw [extend, List.forall_mem_cons, oneLine_cons]
    exact ⟨⟨hc, h.1⟩, h.2⟩

theorem oneLine_splitFrom {s : Option Shelter} (h : OneLine t) :
    ∀ w ∈ splitFrom escape s t, OneLine w := by
  induction t generalizing s with
  | nil => cases s <;> simp [splitFrom]
  | cons c t ih =>
    rw [oneLine_cons] at h
    cases s with
    | none =>
      rw [splitFrom]
      split
      · exact ih h.2
      · exact oneLine_extend h.1 (ih h.2)
    | some s =>
      rw [splitFrom]
      split
      · rw [List.forall_mem_cons]
        exact ⟨oneLine_nil, ih h.2⟩
      · exact oneLine_extend h.1 (ih h.2)

theorem oneLine_split (h : OneLine t) : ∀ w ∈ split escape t, OneLine w := oneLine_splitFrom h

theorem cut?_subset {mark : Char} {p : Text × Text} (h : cut? escape mark t = some p) :
    p.1 ⊆ t ∧ p.2 ⊆ t := by
  rw [(of_cutFrom_eq_some h).1]
  exact ⟨List.subset_append_left _ _,
    List.Subset.trans (List.subset_cons_self _ _) (List.subset_append_right _ _)⟩

theorem oneLine_cut? {mark : Char} {p : Text × Text} (h : OneLine t)
    (hp : cut? escape mark t = some p) : OneLine p.1 ∧ OneLine p.2 := by
  rw [(of_cutFrom_eq_some hp).1, oneLine_append, oneLine_cons] at h
  exact ⟨h.1, h.2.2⟩

theorem oneLine_valueFrom {q : Option Quote} (h : OneLine t) :
    OneLine (valueFrom escape q t) := by
  fun_induction valueFrom escape q t <;> simp_all

theorem oneLine_value (h : OneLine t) : OneLine (value escape t) := oneLine_valueFrom h

end Word

/-! ## References -/

namespace Reference

variable {t rest : Text} {r : Reference}

theorem upToBrace_eq_some {depth : Nat} {p : Text × Text} (h : upToBrace depth t = some p) :
    t = p.1 ++ '\x7d' :: p.2 := by
  induction t generalizing depth p with
  | nil => cases h
  | cons c t ih =>
    unfold upToBrace at h
    split at h
    · rename_i hc
      split at h
      · cases h
        rw [hc]
        rfl
      · obtain ⟨q, hq, rfl⟩ := Option.map_eq_some_iff.mp h
        exact congrArg (c :: ·) (ih hq)
    · obtain ⟨q, hq, rfl⟩ := Option.map_eq_some_iff.mp h
      exact congrArg (c :: ·) (ih hq)

theorem oneLine_readModifier {condition : Condition} {word : Text} (h : OneLine t)
    (hr : readModifier t = some (some (condition, word))) : OneLine word := by
  unfold readModifier at hr
  split at hr <;> cases hr <;> simp_all

theorem oneLine_readInner {condition : Condition} {word : Text} (h : OneLine t)
    (hr : readInner t = some r) (hm : r.modifier = some (condition, word)) : OneLine word := by
  cases t with
  | nil => cases hr
  | cons c t =>
    rw [oneLine_cons] at h
    rw [readInner] at hr
    split at hr
    · obtain ⟨m, hread, rfl⟩ := Option.map_eq_some_iff.mp hr
      have hdrop : OneLine (t.dropWhile isNameChar) :=
        h.2.sublist fun _ hc => List.dropWhile_subset _ hc
      have hm' : m = some (condition, word) := hm
      rw [hm'] at hread
      exact oneLine_readModifier hdrop hread
    · cases hr

/-- What follows a reference, and the word of its modifier. -/
theorem oneLine_read? (h : OneLine t) (hr : read? t = some (r, rest)) :
    OneLine rest ∧ ∀ condition word, r.modifier = some (condition, word) → OneLine word := by
  cases t with
  | nil => cases hr
  | cons c t =>
    rw [oneLine_cons] at h
    rw [read?] at hr
    split at hr
    · obtain ⟨⟨inner, after⟩, hb, hr⟩ := Option.bind_eq_some_iff.mp hr
      obtain ⟨r', hread, hr⟩ := Option.bind_eq_some_iff.mp hr
      cases hr
      have hparts := h.2
      rw [upToBrace_eq_some hb, oneLine_append, oneLine_cons] at hparts
      exact ⟨hparts.2.2, fun condition word hm => oneLine_readInner hparts.1 hread hm⟩
    · split at hr
      · cases hr
        refine ⟨h.2.sublist fun _ hc => List.dropWhile_subset _ hc, ?_⟩
        intro condition word hm
        cases hm
      · cases hr

end Reference

/-! ## Expansions -/

/-- Variables whose values stay on one line. -/
def Binding.OneLine (b : Binding) : Prop := ∀ v ∈ b.value, Text.OneLine v

namespace Expansion

variable {env : Text → Option Binding}

theorem oneLine_value_of_env (henv : ∀ name, ∀ b ∈ env name, b.OneLine) {name v : Text}
    (h : (env name).bind Binding.value = some v) : OneLine v := by
  obtain ⟨b, hb, hv⟩ := Option.bind_eq_some_iff.mp h
  exact henv name b hb v hv

theorem oneLine_getD_of_env (henv : ∀ name, ∀ b ∈ env name, b.OneLine) (name : Text) :
    OneLine (((env name).bind Binding.value).getD []) := by
  cases h : (env name).bind Binding.value with
  | none => exact oneLine_nil
  | some v => exact oneLine_value_of_env henv h

theorem oneLine_append {a b : Expansion} (ha : OneLine a.value) (hb : OneLine b.value) :
    OneLine (a.append b).value := Text.oneLine_append.mpr ⟨ha, hb⟩

theorem oneLine_kept {mode : ExpandMode} {escape c : Char} (he : escape ≠ '\n') (hc : c ≠ '\n') :
    OneLine (mode.kept escape c) := by
  rw [ExpandMode.kept]
  split
  · simp [hc]
  · simp [he, hc]

/-- **Filling in makes no line feeds.** -/
theorem oneLine_ofText (henv : ∀ name, ∀ b ∈ env name, b.OneLine) {escape : Char}
    {mode : ExpandMode} {quote : Option Quote} {t : Text} (h : OneLine t) :
    OneLine (ofText escape mode env quote t).value := by
  fun_induction ofText escape mode env quote t with
  | case1 => exact oneLine_nil
  | case2 => exact h
  | case3 c d t ih =>
    rw [oneLine_cons] at h
    exact oneLine_append (oneLine_cons.mpr ⟨h.1, oneLine_nil⟩) (ih h.2)
  | case4 =>
    rename_i d t _ ih
    rw [oneLine_cons, oneLine_cons] at h
    exact oneLine_append (oneLine_kept h.1 h.2.1) (ih h.2.2)
  | case5 =>
    rename_i ih
    rw [oneLine_cons] at h
    exact oneLine_append (oneLine_cons.mpr ⟨h.1, oneLine_nil⟩) (ih h.2)
  | case6 =>
    rename_i name rest hr _ ih
    rw [oneLine_cons] at h
    exact oneLine_append (oneLine_getD_of_env henv name) (ih (Reference.oneLine_read? h.2 hr).1)
  | case7 =>
    rename_i name condition word rest hr v chosen _ ihword ih
    rw [oneLine_cons] at h
    obtain ⟨hrest, hword⟩ := Reference.oneLine_read? h.2 hr
    refine oneLine_append ?_ (ih hrest)
    by_cases hw : condition.wantsWord v = true
    · rw [show chosen = _ from dif_pos hw]
      exact ihword (hword condition word rfl)
    · rw [show chosen = _ from dif_neg hw]
      have hv := oneLine_getD_of_env henv name
      cases condition with
      | ifEmpty => exact hv
      | ifUnset => exact hv
      | ifNonEmpty => exact oneLine_nil
      | ifSet => exact oneLine_nil
  | case8 =>
    rename_i ih
    rw [oneLine_cons] at h
    exact oneLine_append (oneLine_cons.mpr ⟨h.1, oneLine_nil⟩) (ih h.2)

end Expansion

end Containerfile
