import Containerfile.Proofs.Expansion.Reference
import Containerfile.Proofs.Line.Extent
import Containerfile.Proofs.Text.Lines

/-! # How many lines a logical line takes

Empty lines may or may not be taken, so only visible ones are counted.  A heredoc weighs one line
for its terminator and one for each visible line of its body, and this is how many visible lines it
covers (`Captured.visible_covered`).  So a logical line takes at least one visible line more than
its heredocs weigh (`LogicalLine.weight_le_visible`). -/
namespace Containerfile

/-- How many of some lines are not empty. -/
def PhysicalLine.visible (ls : List PhysicalLine) : Nat := ls.countP fun l => !l.isEmpty

/-- How many lines of a text are not empty. -/
def Text.visibleLines (t : Text) : Nat := (t.splitAll '\n').countP fun l => !l.trim.isEmpty

/-- The number of visible lines of a heredoc, its terminator included. -/
def Heredoc.weight (h : Heredoc) : Nat := h.body.visibleLines + 1

/-- The number of visible lines of heredocs. -/
def Heredoc.totalWeight : List Heredoc → Nat
  | [] => 0
  | h :: hs => h.weight + totalWeight hs

open PhysicalLine

namespace HeredocMarker

variable {m : HeredocMarker} {t rest : Text}

/-! ## Delimiters -/

theorem isWord_of_readWord {stripTabs : Bool} {quote : Option Quote}
    (h : readWord stripTabs quote t = some (m, rest)) : isWord m.delimiter = true := by
  unfold readWord at h
  dsimp only at h
  split at h
  · cases h
  · rename_i hword
    have hword' : isWord (t.takeWhile isWordChar) = true := by simpa using hword
    split at h
    · cases h
      exact hword'
    · cases h
    · split at h
      · cases h
        exact hword'
      · cases h

theorem isWord_of_readQuoted {stripTabs : Bool} (h : readQuoted stripTabs t = some (m, rest)) :
    isWord m.delimiter = true := by
  cases t with
  | nil => cases h
  | cons c t =>
    rw [readQuoted] at h
    split at h
    · exact isWord_of_readWord h
    · exact isWord_of_readWord h

theorem isWord_of_read (h : read t = some (m, rest)) : isWord m.delimiter = true := by
  unfold read at h
  split at h
  · exact isWord_of_readQuoted h
  · exact isWord_of_readQuoted h

/-- Every marker of a text has a word. -/
theorem isWord_of_mem_scan {escape : Char} {quote : Option Quote} {before : Option Char}
    (h : m ∈ scan escape quote before t) : isWord m.delimiter = true := by
  fun_induction scan escape quote before t with
  | case1 => cases h
  | case2 => cases h
  | case3 quote before c hc d t ih => exact ih h
  | case4 => rename_i ih; exact ih h
  | case5 =>
    -- a marker is read here, and the scan goes on behind it
    rename_i hread _ ih
    rcases List.mem_cons.mp h with rfl | h
    · exact isWord_of_read hread
    · exact ih h
  | case6 => rename_i ih; exact ih h
  | case7 => rename_i ih; exact ih h

/-- The characters of a delimiter are those of names. -/
theorem isNameChar_of_isWord (h : isWord t = true) : ∀ c ∈ t, Reference.isNameChar c = true :=
  Reference.isNameChar_of_isName h

theorem isBlank_of_isWord (h : isWord t = true) : ∀ c ∈ t, isBlank c = false := by
  intro c hc
  exact Reference.isBlank_of_isNameChar (isNameChar_of_isWord h c hc)

theorem oneLine_of_isWord (h : isWord t = true) : Text.OneLine t := by
  intro hn
  have hchar := isNameChar_of_isWord h '\n' hn
  revert hchar
  decide

/-! ## Bodies -/

/-- Leading tabs do not make a line visible. -/
theorem trim_content_eq_nil_iff (m : HeredocMarker) :
    (m.content t).trim = [] ↔ t.trim = [] := by
  rw [Text.trim_eq_nil_iff, Text.trim_eq_nil_iff, content]
  by_cases hs : m.stripTabs = true
  · rw [if_pos hs]
    constructor
    · intro h c hc
      rw [← List.takeWhile_append_dropWhile (p := (· == '\t')) (l := t)] at hc
      rcases List.mem_append.mp hc with hc | hc
      · -- what was deleted is a tab, which is blank
        have htab := List.mem_takeWhile_imp hc
        rw [beq_iff_eq] at htab
        rw [htab]
        decide
      · exact h c hc
    · intro h c hc
      exact h c (List.dropWhile_subset _ hc)
  · rw [if_neg hs]

theorem isEmpty_trim_content (m : HeredocMarker) (t : Text) :
    (m.content t).trim.isEmpty = t.trim.isEmpty := by
  rw [Bool.eq_iff_iff, List.isEmpty_iff, List.isEmpty_iff, trim_content_eq_nil_iff]

theorem oneLine_content (m : HeredocMarker) (h : Text.OneLine t) : Text.OneLine (m.content t) := by
  rw [content]
  split
  · exact h.sublist fun c hc => List.dropWhile_subset _ hc
  · exact h

/-- A terminator is visible. -/
theorem visible_of_isTerminator (hw : isWord m.delimiter = true)
    (h : m.isTerminator t = true) : t.trim ≠ [] := by
  intro hblank
  rw [← trim_content_eq_nil_iff m, Text.trim_eq_nil_iff] at hblank
  rw [isTerminator, beq_iff_eq, Text.trimEnd_eq_nil_iff.mpr hblank] at h
  rw [← h] at hw
  cases hw

/-- A heredoc weighs one more than its body. -/
theorem weight_heredoc {body : List PhysicalLine} (hbody : ∀ l ∈ body, Text.OneLine l.text)
    (opening : Nat) (terminator : PhysicalLine) :
    (m.heredoc body opening terminator).weight = visible body + 1 := by
  have hparts : ∀ p ∈ body.map fun l => m.content l.text, '\n' ∉ p := by
    intro p hp
    obtain ⟨l, hl, rfl⟩ := List.mem_map.mp hp
    exact m.oneLine_content (hbody l hl)
  rw [Heredoc.weight, Text.visibleLines, heredoc]
  apply congrArg (· + 1)
  by_cases hnil : body = []
  · rw [hnil]
    rfl
  · rw [Text.splitAll_join hparts (by simpa using hnil), List.countP_map, visible]
    apply List.countP_congr
    intro l _
    rw [Function.comp_apply, m.isEmpty_trim_content, PhysicalLine.isEmpty]

end HeredocMarker

/-! ## Lines -/

theorem PhysicalLine.visible_append (ls ls' : List PhysicalLine) :
    visible (ls ++ ls') = visible ls + visible ls' := List.countP_append

theorem PhysicalLine.visible_cons {l : PhysicalLine} (h : l.isEmpty = false)
    (ls : List PhysicalLine) : visible (l :: ls) = visible ls + 1 := by
  rw [visible, List.countP_cons_of_pos (by simp [h])]
  rfl

namespace Captured

variable {opening : Nat} {ls : List PhysicalLine} {ms : List HeredocMarker} {c : Captured}

/-- **Heredocs weigh what they cover.** -/
theorem visible_covered (hw : ∀ m ∈ ms, HeredocMarker.isWord m.delimiter = true)
    (hls : ∀ l ∈ ls, Text.OneLine l.text) (h : Captured.of opening ls ms = .ok c) :
    visible c.covered = Heredoc.totalWeight c.heredocs := by
  induction ms generalizing opening ls c with
  | nil =>
    cases h
    rfl
  | cons m ms ih =>
    obtain ⟨body, terminator, rest, d, hm, hd, rfl⟩ := of_cons_eq_ok_iff.mp h
    obtain ⟨rfl, hterm, -⟩ := HeredocMarker.capture_eq_some_iff.mp hm
    have hwm := hw m List.mem_cons_self
    have hbody : ∀ l ∈ body, Text.OneLine l.text := fun l hl => hls l (List.mem_append_left _ hl)
    have hvisible : terminator.isEmpty = false := by
      rw [PhysicalLine.isEmpty, List.isEmpty_eq_false_iff]
      exact HeredocMarker.visible_of_isTerminator hwm hterm
    have hrest := ih (fun n hn => hw n (List.mem_cons_of_mem _ hn))
      (fun l hl => hls l (by simp [hl])) hd
    have hweight := HeredocMarker.weight_heredoc (m := m) hbody opening terminator
    rw [Heredoc.totalWeight, hweight, ← hrest]
    dsimp only
    rw [visible_append, visible_cons hvisible]
    omega

/-- The last line that heredocs cover is a terminator. -/
theorem getLast?_covered_visible (hw : ∀ m ∈ ms, HeredocMarker.isWord m.delimiter = true)
    (h : Captured.of opening ls ms = .ok c) : ∀ l ∈ c.covered.getLast?, l.isEmpty = false := by
  induction ms generalizing opening ls c with
  | nil =>
    cases h
    intro l hl
    cases hl
  | cons m ms ih =>
    obtain ⟨body, terminator, rest, d, hm, hd, rfl⟩ := of_cons_eq_ok_iff.mp h
    obtain ⟨-, hterm, -⟩ := HeredocMarker.capture_eq_some_iff.mp hm
    have hlast := ih (fun n hn => hw n (List.mem_cons_of_mem _ hn)) hd
    intro l hl
    dsimp only at hl
    rw [List.getLast?_append_of_ne_nil _ (by simp)] at hl
    cases hcov : d.covered with
    | nil =>
      rw [hcov, List.getLast?_singleton, Option.mem_some_iff] at hl
      rw [← hl, PhysicalLine.isEmpty, List.isEmpty_eq_false_iff]
      exact HeredocMarker.visible_of_isTerminator (hw m List.mem_cons_self) hterm
    | cons k ks =>
      rw [hcov, List.getLast?_cons_cons, ← hcov] at hl
      exact hlast l hl

end Captured

namespace LogicalLine

variable {escape : Char} {first : PhysicalLine} {ls taken rest : List PhysicalLine}
  {l : LogicalLine}

theorem isWord_of_mem_markers {t : Text} :
    ∀ m ∈ markers escape t, HeredocMarker.isWord m.delimiter = true := by
  intro m hm
  rw [markers] at hm
  split at hm
  · exact HeredocMarker.isWord_of_mem_scan hm
  · cases hm

/-- **A logical line takes more visible lines than its heredocs weigh.** -/
theorem weight_lt_visible (hfirst : first.isEmpty = false)
    (hls : ∀ k ∈ taken, Text.OneLine k.text) (h : readAt escape first taken = .ok (l, [])) :
    Heredoc.totalWeight l.heredocs < visible (first :: taken) := by
  obtain ⟨c, hc, rfl, hrest⟩ := readAt_eq_ok_iff.mp h
  have hparts := Joined.joined_append_rest escape first.text taken
  have hcover := Captured.covered_append_rest hc
  rw [hrest, List.append_nil] at hcover
  have hweight : visible c.covered = Heredoc.totalWeight c.heredocs := by
    refine Captured.visible_covered isWord_of_mem_markers ?_ hc
    intro k hk
    apply hls k
    rw [← hparts]
    exact List.mem_append_right _ hk
  rw [visible_cons hfirst, ← hparts, visible_append, ← hcover, hweight]
  show Heredoc.totalWeight c.heredocs < _
  omega

/-- The last of the lines that a logical line takes is visible, unless the file ends there. -/
theorem getLast?_taken_visible (h : readAt escape first (taken ++ rest) = .ok (l, rest))
    (hrest : rest ≠ []) : ∀ k ∈ taken.getLast?, k.isEmpty = false := by
  obtain ⟨c, hc, rfl, hr⟩ := readAt_eq_ok_iff.mp h
  have hparts := Joined.joined_append_rest escape first.text (taken ++ rest)
  have hcover := Captured.covered_append_rest hc
  rw [hr] at hcover
  rw [← hcover, ← List.append_assoc] at hparts
  have htaken := List.append_cancel_right hparts
  rw [← htaken]
  intro k hk
  by_cases hnil : c.covered = []
  · -- without heredocs the last line is the last one that was joined
    rw [hnil, List.append_nil] at hk
    have hne : (Joined.of escape first.text (taken ++ rest)).rest ≠ [] := by
      rw [← hcover, hnil]
      exact hrest
    have hidle := Joined.getLast?_joined_visible hne k hk
    rw [PhysicalLine.isIdle, Bool.or_eq_false_iff] at hidle
    exact hidle.1
  · rw [List.getLast?_append_of_ne_nil _ hnil] at hk
    exact Captured.getLast?_covered_visible isWord_of_mem_markers hc k hk

end LogicalLine

end Containerfile
