import Containerfile.Text.Basic
import Mathlib.Data.List.TakeWhile
import Mathlib.Logic.Equiv.Basic

/-! # Renaming characters

The scanners of words look for blanks, quotes and a few other characters, and for one more, the
escape character, that they are told.  A renaming of characters keeps those that they look for and
may put any others in the place of the rest.  Backslash and backtick, the two escape characters,
are exchanged by one. -/
namespace Containerfile

/-- The characters that the scanners of words look for: blanks, those of names, and what quotes,
refers to variables, modifies a reference or announces a heredoc. -/
def isSyntax (c : Char) : Bool :=
  isBlank c || c.isAlphanum ||
    ['_', '\'', '"', '$', '\x7b', '\x7d', ':', '-', '+', '<'].contains c

/-- A change of characters that keeps those that scanners look for. -/
structure Renaming where
  char : Char → Char
  injective : Function.Injective char
  keeps : ∀ c, isSyntax c = true → char c = c

namespace Renaming

/-- A text with its characters renamed. -/
def text (σ : Renaming) (t : Text) : Text := t.map σ.char

/-- Backslash and backtick exchanged. -/
def exchange : Renaming where
  char := Equiv.swap '\\' '\x60'
  injective := (Equiv.swap '\\' '\x60').injective
  keeps c h := by
    apply Equiv.swap_apply_of_ne_of_ne
    · rintro rfl
      exact absurd h (by decide)
    · rintro rfl
      exact absurd h (by decide)

variable (σ : Renaming) {c d : Char} {t u : Text}

/-! ## Characters -/

theorem char_inj : σ.char c = σ.char d ↔ c = d := σ.injective.eq_iff

theorem char_eq_iff (hd : isSyntax d = true) : σ.char c = d ↔ c = d := by
  have hchar : σ.char c = σ.char d ↔ c = d := σ.char_inj
  rwa [σ.keeps d hd] at hchar

/-- What a scanner looks for is where it was. -/
theorem of_isSyntax {p : Char → Bool} (hp : ∀ c, p c = true → isSyntax c = true) (c : Char) :
    p (σ.char c) = p c := by
  rw [Bool.eq_iff_iff]
  constructor
  · intro h
    rwa [σ.char_inj.mp (σ.keeps _ (hp _ h))] at h
  · intro h
    rwa [σ.keeps _ (hp _ h)]

/-- The characters of names are kept. -/
theorem isSyntax_of_isNameChar (h : (c.isAlphanum || c == '_') = true) :
    isSyntax c = true := by
  rcases (Bool.or_eq_true _ _).mp h with hc | hc
  · rw [isSyntax, hc, Bool.or_true, Bool.true_or]
  · rw [beq_iff_eq.mp hc]
    decide

@[simp] theorem isBlank_char (c : Char) : isBlank (σ.char c) = isBlank c :=
  σ.of_isSyntax (fun c h => by rw [isSyntax, h]; rfl) c

/-! ## Texts -/

@[simp] theorem text_nil : σ.text [] = [] := rfl

@[simp] theorem text_cons (c : Char) (t : Text) : σ.text (c :: t) = σ.char c :: σ.text t := rfl

@[simp] theorem text_eq_nil_iff : σ.text t = [] ↔ t = [] := List.map_eq_nil_iff

/-- Where a renamed text begins with a character that is kept, the text does. -/
theorem of_text_eq_cons (hd : isSyntax d = true) (h : σ.text t = d :: u) :
    ∃ v, t = d :: v ∧ σ.text v = u := by
  cases t with
  | nil => cases h
  | cons c v =>
    obtain ⟨hc, hv⟩ := List.cons.inj h
    exact ⟨v, by rw [(σ.char_eq_iff hd).mp hc], hv⟩

@[simp] theorem text_append (t u : Text) : σ.text (t ++ u) = σ.text t ++ σ.text u := List.map_append

@[simp] theorem head?_text (t : Text) : (σ.text t).head? = t.head?.map σ.char := List.head?_map

@[simp] theorem getLast?_text (t : Text) : (σ.text t).getLast? = t.getLast?.map σ.char :=
  List.getLast?_map

/-- A text of characters that are kept is kept. -/
theorem text_eq_self (h : ∀ c ∈ t, isSyntax c = true) : σ.text t = t := by
  rw [text, List.map_congr_left fun c hc => σ.keeps c (h c hc), List.map_id']

section Scan

variable {p : Char → Bool} (hp : ∀ c, p c = true → isSyntax c = true)
include hp

theorem takeWhile_text (t : Text) : (σ.text t).takeWhile p = t.takeWhile p := by
  rw [text, List.takeWhile_map, Function.comp_def, funext (σ.of_isSyntax hp), ← text]
  exact σ.text_eq_self fun c hc => hp c (List.mem_takeWhile_imp hc)

theorem dropWhile_text (t : Text) : (σ.text t).dropWhile p = σ.text (t.dropWhile p) := by
  rw [text, List.dropWhile_map, Function.comp_def, funext (σ.of_isSyntax hp), text]

theorem dropEndWhile_text (t : Text) :
    Text.dropEndWhile p (σ.text t) = σ.text (Text.dropEndWhile p t) := by
  rw [Text.dropEndWhile, text, ← List.map_reverse, ← text, σ.dropWhile_text hp, text,
    ← List.map_reverse]
  rfl

end Scan

/-! ## Bytes -/

theorem utf8Size_exchange (c : Char) : (exchange.char c).utf8Size = c.utf8Size := by
  by_cases hc : c = '\\'
  · rw [hc]
    decide
  · by_cases hc' : c = '\x60'
    · rw [hc']
      decide
    · exact congrArg Char.utf8Size (Equiv.swap_apply_of_ne_of_ne hc hc')

/-- Both escape characters take one byte. -/
theorem byteSize_exchange (t : Text) : (exchange.text t).byteSize = t.byteSize := by
  induction t with
  | nil => rfl
  | cons c t ih => rw [text_cons, Text.byteSize, Text.byteSize, utf8Size_exchange, ih]

end Renaming

end Containerfile
