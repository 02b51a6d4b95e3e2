import Containerfile.Proofs.Text.Renaming
import Containerfile.Word.Split
import Containerfile.Word.Unquote

/-! # Words with other characters

Splitting a text, cutting a word and removing its quotes commute with a renaming of characters that
is done to the escape character too. -/
namespace Containerfile.Renaming

variable (σ : Renaming) (escape : Char)

@[simp] theorem ofChar?_char (c : Char) : Quote.ofChar? (σ.char c) = Quote.ofChar? c := by
  simp (disch := decide) only [Quote.ofChar?, σ.char_eq_iff]

@[simp] theorem char_eq_quote_iff {c : Char} {quote : Quote} :
    σ.char c = quote.char ↔ c = quote.char :=
  σ.char_eq_iff (by cases quote <;> decide)

theorem step_char (s : Shelter) (c : Char) :
    s.step (σ.char escape) (σ.char c) = s.step escape c := by
  cases s with
  | within quote => cases quote <;> simp (disch := decide) [Shelter.step, σ.char_inj, σ.char_eq_iff]
  | bare => simp [Shelter.step, σ.char_inj]
  | escaped => rfl
  | escapedWithin => rfl

/-! ## Splitting and cutting -/

theorem ends_char (s : Shelter) (c : Char) :
    Word.ends (σ.char escape) s (σ.char c) = Word.ends escape s c := by
  rw [Word.ends, Word.ends, σ.isBlank_char, bne, bne, σ.injective.beq_eq]

theorem extend_text (c : Char) (ws : List Text) :
    Word.extend (σ.char c) (ws.map σ.text) = (Word.extend c ws).map σ.text := by
  cases ws <;> rfl

theorem splitFrom_text (s : Option Shelter) (t : Text) :
    Word.splitFrom (σ.char escape) s (σ.text t) = (Word.splitFrom escape s t).map σ.text := by
  induction t generalizing s with
  | nil => cases s <;> rfl
  | cons c t ih =>
    cases s with
    | none =>
      rw [text_cons, Word.splitFrom, Word.splitFrom, σ.isBlank_char, σ.step_char, ih, ih]
      split
      · rfl
      · exact σ.extend_text c _
    | some s =>
      rw [text_cons, Word.splitFrom, Word.splitFrom, σ.ends_char, σ.step_char, ih, ih]
      split
      · rfl
      · exact σ.extend_text c _

theorem split_text (t : Text) :
    Word.split (σ.char escape) (σ.text t) = (Word.split escape t).map σ.text :=
  σ.splitFrom_text escape none t

theorem cutFrom_text (mark : Char) (s : Shelter) (t : Text) :
    Word.cutFrom (σ.char escape) (σ.char mark) s (σ.text t) =
      (Word.cutFrom escape mark s t).map fun p => (σ.text p.1, σ.text p.2) := by
  induction t generalizing s with
  | nil => rfl
  | cons c t ih =>
    simp only [text_cons, Word.cutFrom, σ.char_inj, σ.step_char, ih]
    split
    · rfl
    · rw [Option.map_map, Option.map_map]
      rfl

theorem cut?_text (mark : Char) (t : Text) :
    Word.cut? (σ.char escape) (σ.char mark) (σ.text t) =
      (Word.cut? escape mark t).map fun p => (σ.text p.1, σ.text p.2) :=
  σ.cutFrom_text escape mark .bare t

/-! ## Removing quotes -/

theorem protects_char (c : Char) :
    Word.protects (σ.char escape) (σ.char c) = Word.protects escape c := by
  rw [Bool.eq_iff_iff]
  simp (disch := decide) only [Word.protects, Bool.or_eq_true, beq_iff_eq, σ.char_inj,
    σ.char_eq_iff]

theorem valueFrom_text : ∀ (quote : Option Quote) (t : Text),
    Word.valueFrom (σ.char escape) quote (σ.text t) = σ.text (Word.valueFrom escape quote t)
  | _, [] => by rw [text_nil, Word.valueFrom, Word.valueFrom, text_nil]
  | some .single, c :: t => by
    simp (disch := decide) only [text_cons, Word.valueFrom, σ.char_eq_iff]
    split
    · exact valueFrom_text none t
    · exact congrArg (σ.char c :: ·) (valueFrom_text (some .single) t)
  | some .double, [c] => by
    simp (disch := decide) only [text_cons, text_nil, Word.valueFrom, σ.char_eq_iff]
    split <;> rfl
  | some .double, c :: d :: t => by
    simp (disch := decide) only [text_cons, Word.valueFrom, σ.char_inj, σ.char_eq_iff,
      σ.protects_char]
    split
    · exact congrArg (σ.char d :: ·) (valueFrom_text (some .double) t)
    · split
      · exact valueFrom_text none (d :: t)
      · exact congrArg (σ.char c :: ·) (valueFrom_text (some .double) (d :: t))
  | none, [c] => by
    simp only [text_cons, text_nil, Word.valueFrom, σ.ofChar?_char]
    split <;> rfl
  | none, c :: d :: t => by
    simp only [text_cons, Word.valueFrom, σ.char_inj, σ.ofChar?_char]
    split
    · exact congrArg (σ.char d :: ·) (valueFrom_text none t)
    · split
      · exact valueFrom_text _ (d :: t)
      · exact congrArg (σ.char c :: ·) (valueFrom_text none (d :: t))

theorem closesAtEnd_text (quote : Quote) : ∀ t : Text,
    Word.closesAtEnd (σ.char escape) quote (σ.text t) = Word.closesAtEnd escape quote t
  | [] => rfl
  | [c] => by
    rw [text_cons, text_nil, Word.closesAtEnd, Word.closesAtEnd, Bool.eq_iff_iff, beq_iff_eq,
      beq_iff_eq, σ.char_eq_quote_iff]
  | c :: d :: t => by
    simp only [text_cons, Word.closesAtEnd, σ.char_inj, σ.protects_char, σ.char_eq_quote_iff]
    split
    · exact closesAtEnd_text quote t
    · split
      · rfl
      · exact closesAtEnd_text quote (d :: t)

theorem unquote_text (t : Text) :
    Word.unquote (σ.char escape) (σ.text t) =
      (σ.text (Word.unquote escape t).1, (Word.unquote escape t).2) := by
  have hquoting : Word.quoting (σ.char escape) (σ.text t) = Word.quoting escape t := by
    cases t with
    | nil => rfl
    | cons c t =>
      rw [text_cons, Word.quoting, Word.quoting, σ.ofChar?_char]
      simp only [ne_eq, σ.char_inj, σ.closesAtEnd_text]
  rw [Word.unquote, Word.value, σ.valueFrom_text, hquoting]
  rfl

end Containerfile.Renaming
