import Containerfile.Proofs.Expansion.Braces
import Containerfile.Proofs.Expansion.Literal
import Containerfile.Scope.Basic

/-! # Expansion by positions

A text can be expanded by a loop over its positions, with a counter of the braces that are open and
with the words of modifiers expanded by the loop itself.  Such a loop can go wrong in three ways
(`Misstep`): one is taken from a counter that is zero, a position is not one of the text, or a word
is no shorter than the text that it stands in, so that nothing makes the recursion end.  The
functions of this module check for each of them at every step.  None is ever found: reading a
reference (`Reference.readIndexed_eq`) and expanding a text (`Expansion.expandFrom_eq`) yield what
the recursion on the text yields. -/
namespace Containerfile

/-- What a loop over the positions of a text must not do. -/
inductive Misstep where
  /-- One is taken from a counter that is zero. -/
  | belowZero
  /-- A position is not one of the text. -/
  | outside
  /-- A text is expanded inside a text that is not longer. -/
  | notShorter
  deriving DecidableEq, Repr

/-- The character at a position. -/
def Text.charAt (t : Text) (i : Nat) : Except Misstep Char :=
  match t[i]? with
  | some c => .ok c
  | none => .error .outside

/-- The characters from one position up to another. -/
def Text.slice (t : Text) (i j : Nat) : Except Misstep Text :=
  if i ≤ j ∧ j ≤ t.length then .ok ((t.take j).drop i) else .error .outside

theorem Text.slice_drop {t : Text} {i : Nat} (h : i ≤ t.length) :
    t.slice i t.length = .ok (t.drop i) := by
  rw [slice, if_pos ⟨h, Nat.le_refl _⟩, List.take_length]

namespace Reference

/-- The position of the brace that closes the first one, from position `i` on and with `depth`
braces open. -/
def closing (depth i : Nat) : Text → Except Misstep (Option Nat)
  | [] => .ok none
  | c :: t =>
    if c = '\x7b' then closing (depth + 1) (i + 1) t
    else if c = '\x7d' then
      match depth with
      | 0 => .error .belowZero
      | depth + 1 => if depth = 0 then .ok (some i) else closing depth (i + 1) t
    else closing depth (i + 1) t

/-- The number of characters at the start of a text that a name can have. -/
def nameLength (t : Text) : Nat := (t.takeWhile isNameChar).length

/-- Reads the text between braces by positions. -/
def readInnerIndexed (inner : Text) : Except Misstep (Option Reference) :=
  if nameLength inner = 0 then return none
  else do
    let first ← inner.charAt 0
    if isNameStart first then
      let name ← inner.slice 0 (nameLength inner)
      let tail ← inner.slice (nameLength inner) inner.length
      return (readModifier tail).map (⟨name, ·⟩)
    else return none

/-- Reads a reference after its dollar sign; yields it with the number of characters that it
takes. -/
def readIndexed (t : Text) : Except Misstep (Option (Reference × Nat)) :=
  match t with
  | [] => return none
  | c :: _ =>
    if c = '\x7b' then do
      match ← closing 0 0 t with
      | none => return none
      | some close =>
        let inner ← t.slice 1 close
        return (← readInnerIndexed inner).map (·, close + 1)
    else if isNameStart c then do
      let name ← t.slice 0 (nameLength t)
      return some (⟨name, none⟩, nameLength t)
    else return none

theorem slice_name (t : Text) : t.slice 0 (nameLength t) = .ok (t.takeWhile isNameChar) := by
  have hprefix := List.takeWhile_prefix (p := isNameChar) (l := t)
  rw [Text.slice, if_pos ⟨Nat.zero_le _, hprefix.length_le⟩, List.drop_zero, nameLength,
    ← List.prefix_iff_eq_take.mp hprefix]

theorem slice_afterName (t : Text) :
    t.slice (nameLength t) t.length = .ok (t.dropWhile isNameChar) := by
  have hlength : nameLength t ≤ t.length := (List.takeWhile_prefix _).length_le
  rw [Text.slice_drop hlength]
  congr 1
  calc t.drop (nameLength t) =
      (t.takeWhile isNameChar ++ t.dropWhile isNameChar).drop (nameLength t) := by
        rw [List.takeWhile_append_dropWhile]
    _ = t.dropWhile isNameChar := List.drop_left

/-- Where braces are open, the counter is not zero at the brace that closes them. -/
theorem closing_succ (depth i : Nat) (t : Text) :
    closing (depth + 1) i t = .ok ((upToBrace depth t).map fun p => i + p.1.length) := by
  induction t generalizing depth i with
  | nil => rfl
  | cons c t ih =>
    have hnext : ∀ before : Nat, closing (before + 1) (i + 1) t =
        .ok (((upToBrace before t).map fun p => (c :: p.1, p.2)).map fun p => i + p.1.length) := by
      intro before
      rw [ih, Option.map_map]
      congr 2
      funext p
      simp only [Function.comp_apply, List.length_cons]
      omega
    by_cases hopen : c = '\x7b'
    · have hclose : c ≠ '\x7d' := by
        rw [hopen]
        decide
      simpa [closing, upToBrace, hopen, hclose] using hnext (depth + 1)
    · by_cases hclose : c = '\x7d'
      · cases depth with
        | zero => simp [closing, upToBrace, hclose]
        | succ depth => simpa [closing, upToBrace, hclose] using hnext depth
      · simpa [closing, upToBrace, hopen, hclose] using hnext depth

theorem readInnerIndexed_eq (inner : Text) : readInnerIndexed inner = .ok (readInner inner) := by
  cases inner with
  | nil => rfl
  | cons c t =>
    have hchar : Text.charAt (c :: t) 0 = .ok c := rfl
    by_cases hstart : isNameStart c = true
    · have hchars := isNameChar_of_isNameStart hstart
      have hlength : nameLength (c :: t) ≠ 0 := by
        rw [nameLength, List.takeWhile_cons_of_pos hchars]
        exact Nat.succ_ne_zero _
      rw [readInnerIndexed, if_neg hlength, hchar, readInner, if_pos hstart]
      show (if isNameStart c = true then _ else _) = _
      rw [if_pos hstart, slice_name, slice_afterName, List.takeWhile_cons_of_pos hchars,
        List.dropWhile_cons_of_pos hchars]
      rfl
    · rw [readInnerIndexed, hchar, readInner, if_neg hstart]
      split
      · rfl
      · exact if_neg hstart

/-- **Reading a reference by positions makes no misstep**, and yields what reading it off the text
yields. -/
theorem readIndexed_eq (t : Text) :
    readIndexed t = .ok ((read? t).map fun p => (p.1, t.length - p.2.length)) := by
  cases t with
  | nil => rfl
  | cons c t =>
    by_cases hbrace : c = '\x7b'
    · have hclosing : closing 0 0 (c :: t) =
          .ok ((upToBrace 0 t).map fun p => 1 + p.1.length) := by
        rw [closing, if_pos hbrace, closing_succ]
      rw [readIndexed, if_pos hbrace, hclosing, read?, if_pos hbrace]
      cases hp : upToBrace 0 t with
      | none => rfl
      | some p =>
        have hsplit := upToBrace_eq_some hp
        have hlength : (c :: t).length = 1 + p.1.length + 1 + p.2.length := by
          rw [hsplit, List.length_cons, List.length_append, List.length_cons]
          omega
        have hinner : Text.slice (c :: t) 1 (1 + p.1.length) = .ok p.1 := by
          rw [Text.slice, if_pos ⟨by omega, by omega⟩, Nat.add_comm, List.take_succ_cons, hsplit,
            List.take_left]
          rfl
        show (Text.slice (c :: t) 1 (1 + p.1.length) >>= _) = _
        rw [hinner]
        show (readInnerIndexed p.1 >>= _) = _
        rw [readInnerIndexed_eq]
        cases hr : readInner p.1 with
        | none => simp [hr]
        | some r => simp [hr, hlength]
    · rw [readIndexed, if_neg hbrace, read?, if_neg hbrace]
      by_cases hstart : isNameStart c = true
      · have hchars := isNameChar_of_isNameStart hstart
        have hlength : nameLength (c :: t) = (c :: t).length - (t.dropWhile isNameChar).length := by
          have hsum :=
            congrArg List.length (List.takeWhile_append_dropWhile (p := isNameChar) (l := t))
          rw [List.length_append] at hsum
          rw [nameLength, List.takeWhile_cons_of_pos hchars, List.length_cons, List.length_cons]
          omega
        rw [if_pos hstart, if_pos hstart, slice_name, hlength, List.takeWhile_cons_of_pos hchars]
        rfl
      · rw [if_neg hstart, if_neg hstart]
        rfl

/-- **What a reference takes, by positions.** -/
theorem of_readIndexed {t : Text} {r : Reference} {n : Nat}
    (h : readIndexed t = .ok (some (r, n))) :
    (1 ≤ n ∧ n ≤ t.length) ∧ isName r.name = true ∧ (t.head? = some '\x7b' → Encloses t n) ∧
      ∀ condition word, r.modifier = some (condition, word) → word.length < n := by
  rw [readIndexed_eq] at h
  obtain ⟨⟨r', rest⟩, hr, h⟩ := Option.map_eq_some_iff.mp (Except.ok.inj h)
  cases h
  obtain ⟨taken, rfl, hne, hname, hbraced, hword⟩ := of_read? hr
  have htaken : (taken ++ rest).length - rest.length = taken.length := by
    rw [List.length_append, Nat.add_sub_cancel]
  rw [htaken]
  refine ⟨⟨List.length_pos_iff.mpr hne, by simp⟩, hname, hbraced, ?_⟩
  intro condition word hm
  obtain ⟨before, after, hbefore, rfl⟩ := hword condition word hm
  have := List.length_pos_iff.mpr hbefore
  simp only [List.length_append]
  omega

end Reference

namespace Expansion

variable {escape : Char} {mode : ExpandMode} {env : Text → Option Binding} {quote : Option Quote}

/-- What stands for a reference, where `inner` expands the word of its modifier. -/
def ofReference (env : Text → Option Binding) (inner : Text → Except Misstep Expansion)
    (r : Reference) : Except Misstep Expansion :=
  match r.modifier with
  | none => return plain r.name (env r.name)
  | some (condition, word) =>
    let v := (env r.name).bind Binding.value
    if condition.wantsWord v then inner word else return literal (condition.otherwise v)

/-- Fills in the reference after a dollar sign; yields what stands for it with the number of
characters that it takes. -/
def substitute (env : Text → Option Binding) (inner : Text → Except Misstep Expansion)
    (rest : Text) :
    Except Misstep (Option (Expansion × Nat)) := do
  match ← Reference.readIndexed rest with
  | none => return none
  | some (r, n) => return some (← ofReference env inner r, n)

/-- Expands a text from position `i` on, behind what is filled in already. -/
def expandFrom (escape : Char) (mode : ExpandMode) (env : Text → Option Binding) (t : Text)
    (quote : Option Quote) (i : Nat) (out : Expansion) : Except Misstep Expansion :=
  if hi : i < t.length then
    if quote = some .single then
      expandFrom escape mode env t (mode.quoteAfter quote t[i]) (i + 1)
        (out.append (literal [t[i]]))
    else if hnext : t[i] = escape ∧ i + 1 < t.length then
      expandFrom escape mode env t quote (i + 2) (out.append (literal (mode.kept t[i] t[i + 1])))
    else if t[i] = '$' then do
      let rest ← t.slice (i + 1) t.length
      -- the word of a modifier is expanded by the loop itself
      let replaced ← substitute env
        (fun word =>
          if h : word.length < t.length then expandFrom escape mode env word none 0 {}
          else .error .notShorter) rest
      match replaced with
      | some (e, n) => expandFrom escape mode env t quote (i + 1 + n) (out.append e)
      | none => expandFrom escape mode env t quote (i + 1) (out.append (literal [t[i]]))
    else
      expandFrom escape mode env t (mode.quoteAfter quote t[i]) (i + 1)
        (out.append (literal [t[i]]))
  else .ok out
termination_by (t.length, t.length - i)

theorem substitute_none {inner : Text → Except Misstep Expansion} {rest : Text}
    (h : Reference.read? rest = none) : substitute env inner rest = .ok none := by
  rw [substitute, Reference.readIndexed_eq, h]
  rfl

/-- What stands for a reference is what the recursion on the text fills in, if the
words of modifiers are. -/
theorem substitute_some {inner : Text → Except Misstep Expansion} {rest tail : Text} {r : Reference}
    (h : Reference.read? rest = some (r, tail))
    (hinner : ∀ word, word.length < rest.length →
      inner word = .ok (ofText escape mode env none word)) :
    ∃ e, substitute env inner rest = .ok (some (e, rest.length - tail.length)) ∧
      (escape ≠ '$' → quote ≠ some .single → ofText escape mode env quote ('$' :: rest) =
        e.append (ofText escape mode env quote tail)) := by
  obtain ⟨name, modifier⟩ := r
  rw [substitute, Reference.readIndexed_eq, h]
  cases modifier with
  | none => exact ⟨_, rfl, fun he hq => ofText_reference he hq h⟩
  | some m =>
    obtain ⟨condition, word⟩ := m
    have hword := hinner word (Reference.length_word_of_read? h rfl)
    refine ⟨_, ?_, fun he hq => ofText_modified he hq h⟩
    show (if _ then inner word else _) >>= _ = _
    rw [hword]
    split <;> rfl

/-- **Expanding by positions makes no misstep**, and yields what the recursion on the text
yields. -/
theorem expandFrom_eq (t : Text) (i : Nat) (out : Expansion) :
    expandFrom escape mode env t quote i out =
      .ok (out.append (ofText escape mode env quote (t.drop i))) := by
  have hnil : ∀ {t : Text} {i : Nat}, ¬ i + 1 < t.length ↔ t.drop (i + 1) = [] := by
    intro t i
    rw [List.drop_eq_nil_iff, Nat.not_lt]
  fun_induction expandFrom escape mode env t quote i out with
  | case1 t i out hi ih =>
    rw [ih, append_assoc, List.drop_eq_getElem_cons hi, ofText_cons_single]
  | case2 t quote i out hi hq hnext ih =>
    obtain ⟨rfl, hlt⟩ := hnext
    rw [ih, append_assoc, List.drop_eq_getElem_cons hi, List.drop_eq_getElem_cons hlt,
      ofText_protected hq]
  | case3 t quote i out hi hq hp hd ihword ihsome ihnone =>
    have hp' : ¬ ('$' = escape ∧ t.drop (i + 1) ≠ []) := by
      rw [← hd, Ne, ← hnil, not_not]
      exact hp
    have hinner : ∀ word, word.length < (t.drop (i + 1)).length →
        (if word.length < t.length then expandFrom escape mode env word none 0 {}
          else .error .notShorter) = .ok (ofText escape mode env none word) := by
      intro word hword
      have hlt : word.length < t.length := by
        rw [List.length_drop] at hword
        omega
      rw [if_pos hlt, ihword word hlt, List.drop_zero]
      rfl
    rw [Text.slice_drop (Nat.succ_le_of_lt hi), List.drop_eq_getElem_cons hi, hd]
    show (substitute env _ (t.drop (i + 1)) >>= _) = _
    cases hr : Reference.read? (t.drop (i + 1)) with
    | none =>
      rw [substitute_none hr, ofText_dollar_of_not_protects hp' hq hr, ← append_assoc, ← hd]
      exact ihnone
    | some p =>
      obtain ⟨r, tail⟩ := p
      obtain ⟨taken, htaken, -⟩ := Reference.of_read? hr
      have htail : t.drop (i + 1 + ((t.drop (i + 1)).length - tail.length)) = tail := by
        rw [← List.drop_drop, htaken, List.length_append, Nat.add_sub_cancel, List.drop_left]
      have he : escape ≠ '$' := by
        rintro rfl
        refine hp' ⟨rfl, fun hempty => ?_⟩
        rw [hempty] at hr
        cases hr
      obtain ⟨e, hsub, htext⟩ := substitute_some hr hinner
      have hrest := ihsome e ((t.drop (i + 1)).length - tail.length)
      rw [htail, append_assoc, ← htext he hq] at hrest
      show (substitute env (fun word => if word.length < t.length then _ else _) _ >>= _) = _
      rw [hsub]
      exact hrest
  | case4 t quote i out hi hq hp hd ih =>
    have hp' : ¬ (t[i] = escape ∧ t.drop (i + 1) ≠ []) := by
      rw [Ne, ← hnil, not_not]
      exact hp
    rw [ih, append_assoc, List.drop_eq_getElem_cons hi, ofText_cons_of_not_protects hp' hd]
  | case5 t quote i out hi =>
    rw [List.drop_eq_nil_iff.mpr (Nat.not_lt.mp hi), ofText, append_nil]

end Expansion

namespace Scope

/-- **References and expansion by positions make no misstep.**  A reference that is found takes at
least one character and none that the text does not have, its name is a name, in braces it ends with
the one that closes the first, and the word of its modifier is shorter.  So expanding a text ends,
and it misses at most one name for each dollar sign. -/
theorem expand_without_misstep (s : Scope) (t : Text) :
    Reference.readIndexed t = .ok ((Reference.read? t).map fun p => (p.1, t.length - p.2.length)) ∧
    (∀ r n, Reference.readIndexed t = .ok (some (r, n)) →
      (1 ≤ n ∧ n ≤ t.length) ∧ Reference.isName r.name = true ∧
      (t.head? = some '\x7b' → Reference.Encloses t n) ∧
      ∀ condition word, r.modifier = some (condition, word) → word.length < n) ∧
    (∀ mode, Expansion.expandFrom s.escape mode s.lookup t none 0 {} = .ok (s.expand mode t) ∧
      (s.expand mode t).undeclared.length ≤ t.count '$') ∧
    Expansion.expandFrom s.escape .word s.global.get? t none 0 {} = .ok (s.expandGlobal t) ∧
      (s.expandGlobal t).undeclared.length ≤ t.count '$' :=
  ⟨Reference.readIndexed_eq t, fun _ _ h => Reference.of_readIndexed h,
    fun mode => ⟨Expansion.expandFrom_eq t 0 {},
      Expansion.length_undeclared_le s.escape mode s.lookup none t⟩,
    Expansion.expandFrom_eq t 0 {},
    Expansion.length_undeclared_le s.escape .word s.global.get? none t⟩

/-- A word with braces of its own, and a dollar sign behind the reference. -/
theorem expand_without_misstep_nested :
    Reference.readIndexed "\x7bA:-\x7b$B\x7d\x7d$C".toList =
        .ok (some (⟨"A".toList, some (.ifEmpty, "\x7b$B\x7d".toList)⟩, 9)) ∧
      Reference.Encloses "\x7bA:-\x7b$B\x7d\x7d$C".toList 9 ∧
      ((Scope.mk '\\' [] .empty).expand .word
        "\x7bA:-\x7b$B\x7d\x7d$C".toList).undeclared.length ≤ 2 := by
  have hread : Reference.readIndexed "\x7bA:-\x7b$B\x7d\x7d$C".toList =
      .ok (some (⟨"A".toList, some (.ifEmpty, "\x7b$B\x7d".toList)⟩, 9)) := by decide +kernel
  obtain ⟨-, hreference, hexpand, -⟩ :=
    expand_without_misstep ⟨'\\', [], .empty⟩ "\x7bA:-\x7b$B\x7d\x7d$C".toList
  exact ⟨hread, (hreference _ _ hread).2.2.1 rfl, (hexpand .word).2⟩

end Scope

end Containerfile
