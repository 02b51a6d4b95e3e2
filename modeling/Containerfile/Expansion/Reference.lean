import Containerfile.Text.Basic

/-! # References to variables

What may follow a dollar sign: a name, or braces around a name and perhaps a modifier with a word,
as in `${NAME:-word}`.  Braces match by counting, whatever stands between them. -/
namespace Containerfile

/-- When the word of a modifier takes the place of the value. -/
inductive Condition where
  /-- The variable has no value or an empty one. -/
  | ifEmpty
  /-- The variable has no value. -/
  | ifUnset
  /-- The variable has a value that is not empty. -/
  | ifNonEmpty
  /-- The variable has a value. -/
  | ifSet
  deriving DecidableEq, Repr

/-- A reference as it is written. -/
structure Reference where
  name : Text
  modifier : Option (Condition × Text)
  deriving DecidableEq, Repr

namespace Reference

/-- Whether a name may start with a character. -/
def isNameStart (c : Char) : Bool := c.isAlpha || c == '_'

/-- Whether a name may go on with a character. -/
def isNameChar (c : Char) : Bool := c.isAlphanum || c == '_'

/-- The text up to the brace that closes the one before it, with `depth` more braces open, and the
text after it. -/
def upToBrace (depth : Nat) : Text → Option (Text × Text)
  | [] => none
  | c :: t =>
    if c = '\x7d' then
      match depth with
      | 0 => some ([], t)
      | depth + 1 => (upToBrace depth t).map fun p => (c :: p.1, p.2)
    else
      (upToBrace (if c = '\x7b' then depth + 1 else depth) t).map fun p => (c :: p.1, p.2)

/-- Reads what follows a name in braces. -/
def readModifier : Text → Option (Option (Condition × Text))
  | [] => some none
  | ':' :: '-' :: word => some (some (.ifEmpty, word))
  | ':' :: '+' :: word => some (some (.ifNonEmpty, word))
  | '-' :: word => some (some (.ifUnset, word))
  | '+' :: word => some (some (.ifSet, word))
  | _ => none

/-- Reads the text between braces. -/
def readInner : Text → Option Reference
  | [] => none
  | c :: t =>
    if isNameStart c then
      (readModifier (t.dropWhile isNameChar)).map fun m => ⟨c :: t.takeWhile isNameChar, m⟩
    else none

/-- Reads a reference after its dollar sign; yields it with the text after it. -/
def read? : Text → Option (Reference × Text)
  | [] => none
  | c :: t =>
    if c = '\x7b' then do
      let (inner, rest) ← upToBrace 0 t
      let r ← readInner inner
      return (r, rest)
    else if isNameStart c then
      some (⟨c :: t.takeWhile isNameChar, none⟩, t.dropWhile isNameChar)
    else none

theorem length_of_upToBrace {depth : Nat} {t inner rest : Text}
    (h : upToBrace depth t = some (inner, rest)) : inner.length + rest.length < t.length := by
  induction t generalizing depth inner with
  | nil => simp [upToBrace] at h
  | cons c t ih =>
    simp only [upToBrace] at h
    split at h
    · split at h
      · cases h; simp
      · obtain ⟨⟨i, r⟩, hr, he⟩ := Option.map_eq_some_iff.1 h
        cases he
        have hlen : i.length + r.length < t.length := ih hr
        simp only [List.length_cons]
        omega
    · obtain ⟨⟨i, r⟩, hr, he⟩ := Option.map_eq_some_iff.1 h
      cases he
      have hlen : i.length + r.length < t.length := ih hr
      simp only [List.length_cons]
      omega

theorem length_of_readModifier {t word : Text} {c : Condition}
    (h : readModifier t = some (some (c, word))) : word.length < t.length := by
  unfold readModifier at h
  split at h <;> cases h <;> simp only [List.length_cons] <;> omega

theorem length_of_readInner {t word : Text} {r : Reference} {c : Condition}
    (h : readInner t = some r) (hm : r.modifier = some (c, word)) :
    word.length < t.length := by
  cases t with
  | nil => simp [readInner] at h
  | cons d t =>
    simp only [readInner] at h
    split at h
    · obtain ⟨m, hr, he⟩ := Option.map_eq_some_iff.1 h
      cases he
      simp only at hm
      subst hm
      have hd : (t.dropWhile isNameChar).length ≤ t.length :=
        (List.dropWhile_suffix _).sublist.length_le
      have := length_of_readModifier hr
      simp only [List.length_cons]
      omega
    · cases h

/-- The text after a reference is shorter than the text that it was read from. -/
theorem length_of_read? {t rest : Text} {r : Reference} (h : read? t = some (r, rest)) :
    rest.length < t.length := by
  cases t with
  | nil => simp [read?] at h
  | cons c t =>
    simp only [read?] at h
    split at h
    · obtain ⟨⟨inner, rest'⟩, hb, h⟩ := Option.bind_eq_some_iff.1 h
      obtain ⟨r', hr, h⟩ := Option.bind_eq_some_iff.1 h
      cases h
      have := length_of_upToBrace hb
      simp only [List.length_cons]
      omega
    · split at h
      · cases h
        have hd : (t.dropWhile isNameChar).length ≤ t.length :=
          (List.dropWhile_suffix _).sublist.length_le
        simp only [List.length_cons]
        omega
      · cases h

/-- The word of a modifier is shorter than the text that the reference was read from. -/
theorem length_word_of_read? {t rest word : Text} {r : Reference} {c : Condition}
    (h : read? t = some (r, rest)) (hm : r.modifier = some (c, word)) :
    word.length < t.length := by
  cases t with
  | nil => simp [read?] at h
  | cons d t =>
    simp only [read?] at h
    split at h
    · obtain ⟨⟨inner, rest'⟩, hb, h⟩ := Option.bind_eq_some_iff.1 h
      obtain ⟨r', hr, h⟩ := Option.bind_eq_some_iff.1 h
      cases h
      have hlen : inner.length + rest'.length < t.length := length_of_upToBrace hb
      have hword : word.length < inner.length := length_of_readInner hr hm
      simp only [List.length_cons]
      omega
    · split at h
      · cases h; cases hm
      · cases h

end Reference

end Containerfile
