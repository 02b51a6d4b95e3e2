import Containerfile.Json.Reader

/-! # JSON strings that are written are read

A character of a string is written in one of three ways: a backslash and a letter, a backslash and
four hexadecimal digits, or as it stands (`escapeChar_cases`).  Each is read back to the character,
and the quote that ends the string cannot be taken for one in it, since that has a backslash before
it.  Main statement: `readString_escaped`. -/
namespace Containerfile.Json

variable {c d : Char} {t u w : Text}

/-- The text of a string between its quotes. -/
def escaped (t : Text) : Text := t.flatMap escapeChar

@[simp] theorem escaped_nil : escaped [] = [] := rfl

@[simp] theorem escaped_cons (c : Char) (t : Text) :
    escaped (c :: t) = escapeChar c ++ escaped t := List.flatMap_cons

theorem quote_eq (t : Text) : quote t = '"' :: escaped t ++ ['"'] := rfl

theorem compactItems_map_text (items : List Text) :
    compactItems (items.map Json.text) = items.map quote := by
  induction items with
  | nil => rfl
  | cons t items ih =>
    show quote t :: compactItems (items.map Json.text) = _
    rw [ih, List.map_cons]

/-! ## Characters -/

/-- The three ways to write a character. -/
theorem escapeChar_cases (c : Char) :
    (∃ letter, escapedChar? letter = some c ∧ letter ≠ 'u' ∧ escapeChar c = ['\\', letter]) ∨
      (c.toNat < 0x20 ∧ escapeChar c =
        ['\\', 'u', '0', '0', Text.hexDigit (c.toNat / 16), Text.hexDigit c.toNat]) ∨
      (¬ c.toNat < 0x20 ∧ c ≠ '"' ∧ c ≠ '\\' ∧ escapeChar c = [c]) := by
  unfold escapeChar
  split
  case h_8 hq hb _ _ _ _ _ =>
    split
    · rename_i hc
      exact .inr (.inl ⟨hc, rfl⟩)
    · rename_i hc
      exact .inr (.inr ⟨hc, hq, hb, rfl⟩)
  all_goals exact .inl ⟨_, rfl, by decide, rfl⟩

theorem hexValue_hexDigit (n : Nat) : hexValue? (Text.hexDigit n) = some (n % 16) := by
  have hall : ∀ m < 16, hexValue? ((Nat.toDigits 16 m).headD '0') = some m := by decide
  exact hall (n % 16) (Nat.mod_lt n (by decide))

/-- What has no value as a digit is none. -/
theorem hexDigit_ne (h : hexValue? d = none) (n : Nat) : Text.hexDigit n ≠ d := by
  rintro rfl
  rw [hexValue_hexDigit] at h
  cases h

/-- Only a quote is written with a quote. -/
theorem quote_not_mem_escapeChar (h : c ≠ '"') : '"' ∉ escapeChar c := by
  have hdigit := hexDigit_ne (d := '"') (by decide)
  rcases escapeChar_cases c with ⟨letter, hletter, -, hc⟩ | ⟨-, hc⟩ | ⟨-, -, -, hc⟩
  · have hquote : letter ≠ '"' := by
      rintro rfl
      exact h (Option.some.inj hletter).symm
    simp [hc, hquote.symm]
  · simp [hc, (hdigit _).symm]
  · simp [hc, h.symm]

/-- A line feed is escaped. -/
theorem lineFeed_not_mem_escapeChar (c : Char) : '\n' ∉ escapeChar c := by
  have hdigit := hexDigit_ne (d := '\n') (by decide)
  rcases escapeChar_cases c with ⟨letter, hletter, -, hc⟩ | ⟨-, hc⟩ | ⟨hsmall, -, -, hc⟩
  · have hfeed : letter ≠ '\n' := by
      rintro rfl
      cases hletter
    simp [hc, hfeed.symm]
  · simp [hc, (hdigit _).symm]
  · have hfeed : c ≠ '\n' := by
      rintro rfl
      exact hsmall (by decide)
    simp [hc, hfeed.symm]

/-- **A character below the blank is read from its number.** -/
theorem readEscape_control (h : c.toNat < 0x20) :
    readEscape ('u' :: '0' :: '0' :: Text.hexDigit (c.toNat / 16) :: Text.hexDigit c.toNat :: t) =
      .ok (c, t) := by
  -- a unit is four bytes at least
  have hsize : ∀ a b : Char, ¬ Text.byteSize ('0' :: '0' :: a :: b :: t) < 4 := by
    intro a b
    have hzero : ('0' : Char).utf8Size = 1 := by decide
    have ha := a.utf8Size_pos
    have hb := b.utf8Size_pos
    simp only [Text.byteSize]
    omega
  have hdigits : fourDigits? ['0', '0', Text.hexDigit (c.toNat / 16), Text.hexDigit c.toNat] =
      some c.toNat := by
    have hzero : hexValue? '0' = some 0 := by decide
    have hvalue : ((0 * 16 + 0) * 16 + c.toNat / 16 % 16) * 16 + c.toNat % 16 = c.toNat := by omega
    simp only [fourDigits?, hexValue_hexDigit, hzero, Option.bind_eq_bind, Option.bind_some,
      Option.pure_def, hvalue]
  have hunit : readUnit ('0' :: '0' :: Text.hexDigit (c.toNat / 16) :: Text.hexDigit c.toNat :: t) =
      .ok c.toNat := by
    rw [readUnit, if_neg (hsize _ _)]
    simp only [List.take_succ_cons, List.take_zero, hdigits]
  have hlow : isLowHalf c.toNat = false := by
    rw [isLowHalf, Bool.and_eq_false_iff, decide_eq_false_iff_not]
    omega
  have hhigh : isHighHalf c.toNat = false := by
    rw [isHighHalf, Bool.and_eq_false_iff, decide_eq_false_iff_not]
    omega
  rw [readEscape, if_pos rfl, readNumbered, hunit]
  simp [hlow, hhigh]

/-- **What is written for a character is read as this character.** -/
theorem readString_escapeChar (c : Char) (t : Text) :
    readString (escapeChar c ++ t) = (readString t).map fun r => (c :: r.1, r.2) := by
  have hreads : ∀ {u}, readEscape (u ++ t) = .ok (c, t) →
      readString ('\\' :: u ++ t) = (readString t).map fun r => (c :: r.1, r.2) := by
    intro u hu
    rw [List.cons_append, readString, if_neg (by decide), if_pos rfl]
    split <;> simp_all
  rcases escapeChar_cases c with ⟨letter, hletter, hu, hc⟩ | ⟨hsmall, hc⟩ | ⟨hsmall, hq, hb, hc⟩
  · rw [hc]
    apply hreads
    simp [readEscape, hu, hletter]
  · rw [hc]
    exact hreads (readEscape_control hsmall)
  · rw [hc, List.singleton_append, readString, if_neg hq, if_neg hb, if_neg hsmall]

/-- **A string that is written is read up to its end.** -/
theorem readString_escaped (t rest : Text) :
    readString (escaped t ++ '"' :: rest) = .ok (t, rest) := by
  induction t with
  | nil => rw [escaped_nil, List.nil_append, readString, if_pos rfl]
  | cons c t ih =>
    rw [escaped_cons, List.append_assoc, readString_escapeChar, ih]
    rfl

theorem wantString_quote (t w : Text) : wantString (quote t ++ w) = .ok (t, w) := by
  have hgaps : skipGaps (quote t ++ w) = '"' :: (escaped t ++ '"' :: w) := by
    rw [quote_eq, List.append_assoc]
    rfl
  rw [wantString, hgaps]
  exact readString_escaped t w

end Containerfile.Json
