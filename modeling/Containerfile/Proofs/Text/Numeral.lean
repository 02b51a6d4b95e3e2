import Containerfile.Text.Numeral

/-! # Numerals that are written are read

What is written in decimal is read again if it is not too large, and what starts with a letter is no
numeral. -/
namespace Containerfile.Numeral

variable {greatest value n : Nat} {c : Char} {t : Text}

theorem le_ofDigitChars (value : Nat) (t : Text) : value ≤ Nat.ofDigitChars 10 t value := by
  induction t generalizing value with
  | nil => exact Nat.le_refl _
  | cons c t ih =>
    rw [Nat.ofDigitChars_cons]
    have hle := ih (10 * value + (c.toNat - '0'.toNat))
    omega

/-- Digits whose value is not too large are read to that value. -/
theorem readDigits_eq_ok (ht : ∀ c ∈ t, c.isDigit = true)
    (hle : Nat.ofDigitChars 10 t value ≤ greatest) :
    readDigits greatest value t = .ok (Nat.ofDigitChars 10 t value) := by
  induction t generalizing value with
  | nil => rfl
  | cons c t ih =>
    rw [List.forall_mem_cons] at ht
    rw [Nat.ofDigitChars_cons] at hle ⊢
    have hnext : value * 10 + digitValue c = 10 * value + (c.toNat - '0'.toNat) := by
      rw [digitValue]
      omega
    -- the value so far is no larger than that of all digits
    have hfits : ¬greatest < 10 * value + (c.toNat - '0'.toNat) := by
      have hgrows := le_ofDigitChars (10 * value + (c.toNat - '0'.toNat)) t
      omega
    rw [readDigits, ht.1, Bool.not_true, if_neg (by decide), hnext]
    dsimp only
    rw [if_neg hfits]
    exact ih ht.2 hle

/-- Without a sign a numeral is its digits. -/
theorem read_cons_of_ne (hc : c ≠ '+') (t : Text) :
    read greatest (c :: t) = readDigits greatest 0 (c :: t) := by
  unfold read
  split
  · rename_i h
    cases h
  · rename_i h
    exact absurd (List.cons.inj h).1 hc
  · rename_i h
    exact absurd (List.cons.inj h).1 hc
  · rfl

/-- **A number that is written in decimal is read again.** -/
theorem read_toDigits (h : n ≤ greatest) : read greatest (Nat.toDigits 10 n) = .ok n := by
  have hdigits : ∀ c ∈ Nat.toDigits 10 n, c.isDigit = true := fun c hc =>
    Nat.isDigit_of_mem_toDigits (by decide) (by decide) hc
  have hvalue : Nat.ofDigitChars 10 (Nat.toDigits 10 n) 0 = n :=
    Nat.ofDigitChars_toDigits (by decide) (by decide)
  rcases ht : Nat.toDigits 10 n with _ | ⟨c, t⟩
  · exact absurd ht Nat.toDigits_ne_nil
  · rw [ht] at hdigits hvalue
    have hplus : c ≠ '+' := by
      rintro rfl
      exact absurd (hdigits '+' List.mem_cons_self) (by decide)
    rw [read_cons_of_ne hplus, readDigits_eq_ok hdigits (by rw [hvalue]; exact h), hvalue]

/-- A letter is no digit. -/
theorem isDigit_of_isAlpha (hc : c.isAlpha = true) : c.isDigit = false := by
  rw [Bool.eq_false_iff, ne_eq, Char.isDigit_iff_toNat]
  rintro ⟨-, h9⟩
  rcases (Bool.or_eq_true _ _).mp hc with hupper | hlower
  · have hA := UInt32.le_iff_toNat_le.mp (of_decide_eq_true hupper).1
    exact absurd (Nat.le_trans hA h9) (by decide)
  · obtain ⟨hbegins, -⟩ := (Bool.and_eq_true _ _).mp hlower
    have ha := UInt32.le_iff_toNat_le.mp (of_decide_eq_true hbegins)
    exact absurd (Nat.le_trans ha h9) (by decide)

/-- **What starts with a letter is no numeral.** -/
theorem read_of_isAlpha (hc : c.isAlpha = true) (t : Text) :
    read greatest (c :: t) = .error .badDigit := by
  have hplus : c ≠ '+' := by
    rintro rfl
    exact absurd hc (by decide)
  rw [read_cons_of_ne hplus, readDigits, isDigit_of_isAlpha hc]
  rfl

end Containerfile.Numeral
