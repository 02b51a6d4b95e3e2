/-! # Blank characters

The characters that separate words and that trimming removes: those with the Unicode property
White_Space.  Control characters such as U+001C and zero-width characters such as U+200B are not
blank. -/
namespace Containerfile

/-- The ranges of blank characters, both ends included. -/
def blankRanges : List (Char × Char) :=
  [('\t', '\r'), (' ', ' '), ('\u0085', '\u0085'), ('\u00a0', '\u00a0'), ('\u1680', '\u1680'),
   ('\u2000', '\u200a'), ('\u2028', '\u2029'), ('\u202f', '\u202f'), ('\u205f', '\u205f'),
   ('\u3000', '\u3000')]

/-- Whether a character separates words. -/
def isBlank (c : Char) : Bool :=
  blankRanges.any fun r => decide (r.1 ≤ c ∧ c ≤ r.2)

/-- Twenty-five characters are blank. -/
example : (blankRanges.map fun r => r.2.toNat + 1 - r.1.toNat).sum = 25 := by decide

end Containerfile
