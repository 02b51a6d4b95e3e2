import Containerfile.Duration.Reader
import Containerfile.Json.Fault
import Containerfile.Proofs.Text.Lines

/-! # Durations and JSON as formats

How a duration and an array of strings are written is fixed elsewhere: a file only borrows these
formats.  What is proved about durations and arrays that are printed and read rests on a few facts
about them, and here these facts are stated, for any functions that read and write.

* A `DurationFormat` reads durations.  It is known what fits, and how one number with a unit is
  read.
* A `StringFormat` escapes the characters of a string.
* An `ArrayFormat` writes and reads arrays of strings.  It is known how an array is put together,
  and that blanks behind its commas do not count.

The functions in use are `Duration.format` and `Json.format`. -/
namespace Containerfile

/-- A reader of durations, with what is known of it. -/
structure DurationFormat where
  read : Text → Except DurationFault Duration
  /-- The seconds of a duration fit 64 bits. -/
  seconds_le : ∀ {t d}, read t = .ok d → d.seconds ≤ Numeral.greatest64
  /-- A count of seconds is read if it fits 64 bits. -/
  read_seconds : ∀ {n}, n ≤ Numeral.greatest64 →
    read (Nat.toDigits 10 n ++ ['s']) = .ok (.ofParts n 0)
  /-- A count of milliseconds is read if it fits 64 bits as nanoseconds. -/
  read_millis : ∀ n, read (Nat.toDigits 10 n ++ ['m', 's']) =
    if n * 1000000 ≤ Numeral.greatest64 then .ok (.ofParts 0 (n * 1000000)) else .error .tooLarge
  /-- A count of nanoseconds is read if it fits 64 bits. -/
  read_nanos : ∀ n, read (Nat.toDigits 10 n ++ ['n', 's']) =
    if n ≤ Numeral.greatest64 then .ok (.ofParts 0 n) else .error .tooLarge

/-- A way to escape the characters of a string, with what is known of it. -/
structure StringFormat where
  escape : Char → Text
  /-- A character stands as it is or behind a backslash. -/
  escape_cases : ∀ c, escape c = [c] ∨ ∃ w, escape c = '\\' :: w
  escape_quote : escape '"' = ['\\', '"']
  escape_comma : escape ',' = [',']
  escape_blank : escape ' ' = [' ']
  /-- Only a quote is written with a quote. -/
  quote_not_mem : ∀ {c}, c ≠ '"' → '"' ∉ escape c
  /-- A line feed is escaped. -/
  oneLine_escape : ∀ c, Text.OneLine (escape c)

namespace StringFormat

variable (F : StringFormat)

/-- The text of a string between its quotes. -/
def escaped (t : Text) : Text := t.flatMap F.escape

/-- The text of a string. -/
def quote (t : Text) : Text := '"' :: F.escaped t ++ ['"']

/-- The strings of an array behind its first one, each behind a comma and some blanks, and the
bracket. -/
def listEnd : List (Nat × Text) → Text
  | [] => [']']
  | (blanks, item) :: items =>
    ',' :: List.replicate blanks ' ' ++ (F.quote item ++ listEnd items)

@[simp] theorem escaped_nil : F.escaped [] = [] := rfl

@[simp] theorem escaped_cons (c : Char) (t : Text) :
    F.escaped (c :: t) = F.escape c ++ F.escaped t := List.flatMap_cons

end StringFormat

/-- A writer and a reader of arrays of strings, with what is known of them. -/
structure ArrayFormat extends StringFormat where
  write : List Text → Text
  read : Text → Except Json.Fault (List Text)
  write_nil : write [] = ['[', ']']
  /-- Nothing but a comma is written between two strings. -/
  write_cons : ∀ item items, write (item :: items) =
    '[' :: (toStringFormat.quote item ++ toStringFormat.listEnd (items.map (0, ·)))
  read_nil : read ['[', ']'] = .ok []
  /-- Blanks behind commas are passed over. -/
  read_cons : ∀ item items,
    read ('[' :: (toStringFormat.quote item ++ toStringFormat.listEnd items)) =
      .ok (item :: items.map Prod.snd)

/-- What is written is read. -/
theorem ArrayFormat.read_write (F : ArrayFormat) (items : List Text) :
    F.read (F.write items) = .ok items := by
  cases items with
  | nil => rw [F.write_nil, F.read_nil]
  | cons item items =>
    have hitems : (items.map (0, ·)).map Prod.snd = items := by
      rw [List.map_map]
      exact List.map_id items
    rw [F.write_cons, F.read_cons, hitems]

end Containerfile
