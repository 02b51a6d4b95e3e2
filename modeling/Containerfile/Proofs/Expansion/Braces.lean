import Containerfile.Proofs.Expansion.Reference
import Containerfile.Proofs.Word.OneLine

/-! # What a reference takes

A reference takes the characters from the dollar sign to its end.  In braces these are the shortest
beginning of the text in which as many braces are closed as opened (`Reference.Encloses`), and the
word of a modifier lies inside them (`Reference.of_read?`).  So the dollar signs of a word and those
behind its reference are different ones, and an expansion misses at most one name for each dollar
sign (`Expansion.length_undeclared_le`). -/
namespace Containerfile

/-- What the first character of a text adds to a count. -/
theorem Text.count_cons_eq (d c : Char) (t : Text) :
    (c :: t).count d = [c].count d + t.count d := by
  rw [← List.singleton_append, List.count_append]

namespace Reference

variable {depth : Nat} {t rest : Text} {r : Reference} {p : Text × Text}

/-- Whether the first `n` characters of a text are an opening brace and what it opens: as many
braces are closed as opened in them, and before the last one fewer are. -/
structure Encloses (t : Text) (n : Nat) : Prop where
  balanced : (t.take n).count '\x7b' = (t.take n).count '\x7d'
  open_before : ∀ k, 0 < k → k < n → (t.take k).count '\x7d' < (t.take k).count '\x7b'

/-- Up to the brace that closes, the braces that are open count, and no more are closed than were
opened. -/
theorem count_of_upToBrace (h : upToBrace depth t = some p) :
    p.1.count '\x7d' = depth + p.1.count '\x7b' ∧
      ∀ k, (p.1.take k).count '\x7d' ≤ depth + (p.1.take k).count '\x7b' := by
  induction t generalizing depth p with
  | nil => cases h
  | cons c t ih =>
    -- one more character in front, with the braces that are open before it and behind it
    have hstep : ∀ (q : Text × Text) (before : Nat), upToBrace before t = some q →
        before + [c].count '\x7d' = depth + [c].count '\x7b' →
        (c :: q.1).count '\x7d' = depth + (c :: q.1).count '\x7b' ∧
          ∀ k, ((c :: q.1).take k).count '\x7d' ≤ depth + ((c :: q.1).take k).count '\x7b' := by
      intro q before hq hbefore
      obtain ⟨hcount, hprefix⟩ := ih hq
      refine ⟨?_, fun k => ?_⟩
      · have hopen := Text.count_cons_eq '\x7b' c q.1
        have hclose := Text.count_cons_eq '\x7d' c q.1
        omega
      · cases k with
        | zero => simp
        | succ k =>
          have hopen := Text.count_cons_eq '\x7b' c (q.1.take k)
          have hclose := Text.count_cons_eq '\x7d' c (q.1.take k)
          have hle := hprefix k
          rw [List.take_succ_cons]
          omega
    unfold upToBrace at h
    split at h
    · rename_i hc
      split at h
      · cases h
        simp
      · obtain ⟨q, hq, rfl⟩ := Option.map_eq_some_iff.mp h
        exact hstep q _ hq (by simp [hc])
    · rename_i hc
      obtain ⟨q, hq, rfl⟩ := Option.map_eq_some_iff.mp h
      refine hstep q _ hq ?_
      split
      · rename_i hopen
        simp [hopen]
      · rename_i hopen
        simp [hc, hopen]

/-- **Matching braces by counting finds the shortest beginning with as many closed as opened.** -/
theorem encloses_of_upToBrace (h : upToBrace 0 t = some p) :
    Encloses ('\x7b' :: t) (p.1.length + 2) := by
  obtain ⟨hcount, hprefix⟩ := count_of_upToBrace h
  have ht := upToBrace_eq_some h
  have htake : ∀ k ≤ p.1.length, t.take k = p.1.take k := by
    intro k hk
    rw [ht, List.take_append_of_le_length hk]
  refine ⟨?_, fun k hpos hk => ?_⟩
  · have hall : t.take (p.1.length + 1) = p.1 ++ ['\x7d'] := by
      rw [ht, List.take_append, List.take_of_length_le (Nat.le_succ _), Nat.add_sub_cancel_left]
      rfl
    have hlast : ['\x7d'].count '\x7b' = 0 ∧ ['\x7d'].count '\x7d' = 1 := by decide
    rw [List.take_succ_cons, hall, List.count_cons_self, List.count_cons_of_ne (by decide),
      List.count_append, List.count_append]
    omega
  · obtain ⟨k, rfl⟩ := Nat.exists_eq_succ_of_ne_zero (Nat.ne_of_gt hpos)
    have hle := hprefix k
    rw [Nat.succ_eq_add_one, List.take_succ_cons, htake k (by omega), List.count_cons_self,
      List.count_cons_of_ne (by decide)]
    omega

theorem suffix_of_readModifier {condition : Condition} {word : Text}
    (h : readModifier t = some (some (condition, word))) : word <:+ t := by
  unfold readModifier at h
  split at h <;> cases h
  · exact ⟨[':', '-'], rfl⟩
  · exact ⟨[':', '+'], rfl⟩
  · exact ⟨['-'], rfl⟩
  · exact ⟨['+'], rfl⟩

theorem isName_takeWhile {c : Char} (h : isNameStart c = true) (t : Text) :
    isName (c :: t.takeWhile isNameChar) = true := by
  rw [isName, Bool.and_eq_true]
  exact ⟨h, List.all_takeWhile⟩

theorem of_readInner (h : readInner t = some r) :
    isName r.name = true ∧ ∀ condition word, r.modifier = some (condition, word) → word <:+ t := by
  cases t with
  | nil => cases h
  | cons c t =>
    rw [readInner] at h
    split at h
    · rename_i hstart
      obtain ⟨m, hm, rfl⟩ := Option.map_eq_some_iff.mp h
      refine ⟨isName_takeWhile hstart t, ?_⟩
      rintro condition word rfl
      exact ((suffix_of_readModifier hm).trans (List.dropWhile_suffix _)).trans
        (List.suffix_cons c t)
    · cases h

/-- **What a reference takes of a text**: its name is a name, in braces it ends with the one that
closes the first, and the word of its modifier lies inside. -/
theorem of_read? (h : read? t = some (r, rest)) :
    ∃ taken, t = taken ++ rest ∧ taken ≠ [] ∧ isName r.name = true ∧
      (t.head? = some '\x7b' → Encloses t taken.length) ∧
      ∀ condition word, r.modifier = some (condition, word) →
        ∃ before after, before ≠ [] ∧ taken = before ++ word ++ after := by
  cases t with
  | nil => cases h
  | cons c t =>
    rw [read?] at h
    split at h
    · rename_i hc
      obtain ⟨p, hp, h⟩ := Option.bind_eq_some_iff.mp h
      obtain ⟨r', hr, h⟩ := Option.bind_eq_some_iff.mp h
      cases h
      obtain ⟨hname, hword⟩ := of_readInner hr
      refine ⟨c :: (p.1 ++ ['\x7d']), ?_, List.cons_ne_nil _ _, hname, fun _ => ?_, ?_⟩
      · simpa using upToBrace_eq_some hp
      · rw [hc]
        simpa using encloses_of_upToBrace hp
      · intro condition word hm
        obtain ⟨before, hbefore⟩ := hword condition word hm
        exact ⟨c :: before, ['\x7d'], List.cons_ne_nil _ _, by simp [← hbefore]⟩
    · rename_i hc
      split at h
      · rename_i hstart
        cases h
        refine ⟨c :: t.takeWhile isNameChar, ?_, List.cons_ne_nil _ _, isName_takeWhile hstart t,
          ?_, ?_⟩
        · rw [List.cons_append, List.takeWhile_append_dropWhile]
        · intro hhead
          exact absurd (Option.some.inj hhead) hc
        · intro condition word hm
          cases hm
      · cases h

end Reference

/-- **An expansion misses at most one name for each dollar sign** of its text. -/
theorem Expansion.length_undeclared_le (escape : Char) (mode : ExpandMode)
    (env : Text → Option Binding) (quote : Option Quote) (t : Text) :
    (ofText escape mode env quote t).undeclared.length ≤ t.count '$' := by
  have happend : ∀ a b : Expansion,
      (a.append b).undeclared.length = a.undeclared.length + b.undeclared.length :=
    fun a b => List.length_append
  fun_induction ofText escape mode env quote t with
  | case1 => exact Nat.le_refl 0
  | case2 => exact Nat.zero_le _
  | case3 c d t ih =>
    have hcons := Text.count_cons_eq '$' c (d :: t)
    rw [happend, literal, List.length_nil]
    omega
  | case4 quote d t hq ih =>
    have hcons := Text.count_cons_eq '$' escape (d :: t)
    have hcons' := Text.count_cons_eq '$' d t
    rw [happend, literal, List.length_nil]
    omega
  | case5 quote d t hq hr he ih =>
    rw [happend, literal, List.length_nil, List.count_cons_self]
    omega
  | case6 quote d t hq name rest hr he ih =>
    obtain ⟨taken, htaken, -⟩ := Reference.of_read? hr
    have hplain : (plain name (env name)).undeclared.length ≤ 1 := by
      rw [plain]
      split <;> simp
    rw [happend, List.count_cons_self, htaken, List.count_append]
    omega
  | case7 quote d t hq name condition word rest hr v chosen he ihw ih =>
    obtain ⟨taken, htaken, -, -, -, hword⟩ := Reference.of_read? hr
    obtain ⟨before, after, -, rfl⟩ := hword condition word rfl
    have hchosen : chosen.undeclared.length ≤ word.count '$' := by
      dsimp only [chosen]
      split
      · exact ihw
      · exact Nat.zero_le _
    rw [happend, List.count_cons_self, htaken, List.count_append, List.count_append,
      List.count_append]
    omega
  | case8 quote c d t hq he hc ih =>
    have hcons := Text.count_cons_eq '$' c (d :: t)
    rw [happend, literal, List.length_nil]
    omega

end Containerfile
