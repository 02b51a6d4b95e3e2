import Containerfile.Json.Basic

/-! # Faults of JSON text

Why a text is not the JSON that was wanted, and where.  A reader reports how much of the text
it left unread; line and column follow from that and the whole text, the column counting bytes
from the last line feed. -/
namespace Containerfile.Json

/-- A value that stands where another kind of value was wanted. -/
inductive Found where
  | null
  | boolean (b : Bool)
  | number (n : Number)
  | string (t : Text)
  | sequence
  | map
  deriving DecidableEq, Repr

/-- How a found value is named. -/
def Found.describe : Found → String
  | .null => "null"
  | .boolean b => s!"boolean `{b}`"
  | .number n =>
    let kind := if n.isWhole then "integer" else "floating point"
    s!"{kind} `{str n.text}`"
  | .string t => s!"string {str t.quoted}"
  | .sequence => "sequence"
  | .map => "map"

/-- Why reading stopped. -/
inductive Cause where
  | endInValue
  | endInList
  | endInObject
  | endInString
  | expectedValue
  | expectedLiteral
  | expectedListEnd
  | expectedObjectEnd
  | expectedColon
  | keyNotString
  | trailingComma
  | trailingCharacters
  | invalidNumber
  | numberOutOfRange
  | controlCharacter
  | invalidEscape
  | loneSurrogate
  | endInSurrogates
  | wrongType (found : Found) (wanted : String)
  | duplicateField (name : String)
  deriving DecidableEq, Repr

/-- The wording of a cause. -/
def Cause.message : Cause → String
  | .endInValue => "EOF while parsing a value"
  | .endInList => "EOF while parsing a list"
  | .endInObject => "EOF while parsing an object"
  | .endInString => "EOF while parsing a string"
  | .expectedValue => "expected value"
  | .expectedLiteral => "expected ident"
  | .expectedListEnd => "expected `,` or `]`"
  | .expectedObjectEnd => "expected `,` or `\x7d`"
  | .expectedColon => "expected `:`"
  | .keyNotString => "key must be a string"
  | .trailingComma => "trailing comma"
  | .trailingCharacters => "trailing characters"
  | .invalidNumber => "invalid number"
  | .numberOutOfRange => "number out of range"
  | .controlCharacter => "control character (\\u0000-\\u001F) found while parsing a string"
  | .invalidEscape => "invalid escape"
  | .loneSurrogate => "lone leading surrogate in hex escape"
  | .endInSurrogates => "unexpected end of hex escape"
  | .wrongType found wanted => s!"invalid type: {found.describe}, expected {wanted}"
  | .duplicateField name => s!"duplicate field `{name}`"

/-- Where a reader stopped: `left` bytes of the text were not read. -/
structure Halt where
  cause : Cause
  left : Nat
  deriving DecidableEq, Repr

/-- Stops before `rest`. -/
def Halt.before (cause : Cause) (rest : Text) : Halt := ⟨cause, rest.byteSize⟩

/-- Stops after the first byte of `rest`, or at the end of the text if nothing is left. -/
def Halt.at (cause : Cause) (rest : Text) : Halt := ⟨cause, rest.byteSize - 1⟩

/-- A cause with its place in the text. -/
structure Fault where
  cause : Cause
  line : Nat
  column : Nat
  deriving DecidableEq, Repr

/-- The wording of a fault. -/
def Fault.message (f : Fault) : String :=
  s!"{f.cause.message} at line {f.line} column {f.column}"

/-- The line and column reached from a given place after some bytes of a text. -/
def placeAfter (line column : Nat) : Nat → Text → Nat × Nat
  | 0, _ => (line, column)
  | _, [] => (line, column)
  | bytes + 1, c :: t =>
    if c = '\n' then placeAfter (line + 1) 0 bytes t
    else placeAfter line (column + min (bytes + 1) c.utf8Size) (bytes + 1 - c.utf8Size) t

/-- The fault of a reader that stopped in a text. -/
def Halt.locate (h : Halt) (text : Text) : Fault :=
  let (line, column) := placeAfter 1 0 (text.byteSize - h.left) text
  ⟨h.cause, line, column⟩

end Containerfile.Json
