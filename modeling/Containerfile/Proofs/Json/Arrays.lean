import Containerfile.Proofs.Formats
import Containerfile.Proofs.Json.Strings

/-! # Arrays of JSON strings that are written are read

An array is read string by string.  Before a string stands a comma, and blanks behind the comma are
passed over (`nextElement_blanks`), so an array is read however many of them there are
(`readElements_listEnd`).

`Json.format` puts together what is known of strings and arrays. -/
namespace Containerfile.Json

/-- Strings as they are escaped in JSON. -/
def stringFormat : StringFormat where
  escape := escapeChar
  escape_cases := by
    intro c
    rcases escapeChar_cases c with ⟨letter, -, -, hc⟩ | ⟨-, hc⟩ | ⟨-, -, -, hc⟩
    · exact Or.inr ⟨_, hc⟩
    · exact Or.inr ⟨_, hc⟩
    · exact Or.inl hc
  escape_quote := by decide
  escape_comma := by decide
  escape_blank := by decide
  quote_not_mem := quote_not_mem_escapeChar
  oneLine_escape := lineFeed_not_mem_escapeChar

theorem quote_stringFormat (t : Text) : stringFormat.quote t = quote t := rfl

/-! ## Writing -/

theorem join_append_bracket (item : Text) (items : List Text) :
    Text.join [','] ((item :: items).map quote) ++ [']'] =
      quote item ++ stringFormat.listEnd (items.map (0, ·)) := by
  induction items generalizing item with
  | nil => simp [Text.join, StringFormat.listEnd]
  | cons next items ih =>
    rw [List.map_cons, List.map_cons, Text.join_cons_cons, ← List.map_cons, List.append_assoc, ih,
      List.append_assoc]
    rfl

theorem compact_list_text (items : List Text) :
    compact (.list text items) = '[' :: (Text.join [','] (items.map quote) ++ [']']) := by
  show enclose '[' ']' (compactItems (items.map Json.text)) = _
  rw [compactItems_map_text]
  rfl

/-! ## Reading -/

theorem nextElement_blanks (n : Nat) (t w : Text) :
    nextElement false (',' :: List.replicate n ' ' ++ (quote t ++ w)) =
      .ok (.element (quote t ++ w)) := by
  induction n with
  | zero => rfl
  | succ n ih => exact ih

theorem lt_length_listEnd (items : List (Nat × Text)) :
    items.length < (stringFormat.listEnd items).length := by
  induction items with
  | nil => exact Nat.zero_lt_one
  | cons x items ih =>
    rw [StringFormat.listEnd, List.length_append, List.length_append, List.length_cons,
      List.length_cons]
    omega

/-- **What follows the first string of an array is read**, whatever blanks are in it. -/
theorem readElements_listEnd {fuel : Nat} {items : List (Nat × Text)} (h : items.length < fuel) :
    readElements wantString false fuel (stringFormat.listEnd items) =
      .ok (items.map Prod.snd, [']']) := by
  induction items generalizing fuel with
  | nil =>
    obtain ⟨fuel, rfl⟩ := Nat.exists_eq_add_of_lt h
    rfl
  | cons x items ih =>
    obtain ⟨fuel, rfl⟩ := Nat.exists_eq_succ_of_ne_zero (Nat.ne_zero_of_lt h)
    rw [List.length_cons, Nat.succ_lt_succ_iff] at h
    simp only [StringFormat.listEnd, readElements, quote_stringFormat, nextElement_blanks,
      wantString_quote, ih h, List.map_cons, bind, Except.bind, pure, Except.pure]

theorem scanStrings_listEnd (item : Text) (items : List (Nat × Text)) :
    scanStrings ('[' :: (quote item ++ stringFormat.listEnd items)) =
      .ok (item :: items.map Prod.snd) := by
  have hfirst : nextElement true (quote item ++ stringFormat.listEnd items) =
      .ok (.element (quote item ++ stringFormat.listEnd items)) := rfl
  have hfuel : items.length < (quote item ++ stringFormat.listEnd items).length := by
    have hlt := lt_length_listEnd items
    rw [List.length_append]
    omega
  have hgaps : ∀ w, skipGaps ('[' :: w) = '[' :: w := fun _ => rfl
  rw [scanStrings, hgaps]
  simp only [readElements, hfirst, wantString_quote, readElements_listEnd hfuel, bind, Except.bind,
    pure, Except.pure]
  rfl

/-- **Arrays of strings as they are written and read in JSON.** -/
def format : ArrayFormat where
  toStringFormat := stringFormat
  write items := compact (.list text items)
  read := readStrings
  write_nil := rfl
  write_cons := by
    intro item items
    rw [compact_list_text, join_append_bracket]
    rfl
  read_nil := by decide
  read_cons := by
    intro item items
    have hread := scanStrings_listEnd item items
    rw [readStrings, quote_stringFormat, hread]
    rfl

end Containerfile.Json
