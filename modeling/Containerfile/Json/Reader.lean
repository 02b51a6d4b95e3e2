import Containerfile.Json.Scan

/-! # Reading JSON text

Readers of whole JSON texts.  A reader knows which kind of value it wants: one of another kind is
read to its end, as far as it is a literal, a number or a string, and then refused by name.  Array
and object readers take the reader of one member.  Where recursion follows the nesting of the text,
the length of the text bounds it. -/
namespace Containerfile.Json

/-- Refuses a value of another kind than the one wanted. -/
def refuse (wanted : String) (t : Text) : Halt :=
  let named (found : Scan Found) : Halt :=
    match found with
    | .error h => h
    | .ok (f, rest) => .before (.wrongType f wanted) rest
  match t with
  | 'n' :: t => named (literal .null "ull".toList t)
  | 't' :: t => named (literal (.boolean true) "rue".toList t)
  | 'f' :: t => named (literal (.boolean false) "alse".toList t)
  | '-' :: t => named ((readNumber true t).map fun r => (.number r.1, r.2))
  | '"' :: t => named ((readString t).map fun r => (.string r.1, r.2))
  | '[' :: t => .before (.wrongType .sequence wanted) ('[' :: t)
  | '\x7b' :: t => .before (.wrongType .map wanted) ('\x7b' :: t)
  | t =>
    if (t.head?.map Char.isDigit).getD false then
      named ((readNumber false t).map fun r => (.number r.1, r.2))
    else .at .expectedValue t

/-! ## Single values -/

/-- Reads a string. -/
def wantString (t : Text) : Scan Text :=
  match skipGaps t with
  | [] => .error (.at .endInValue [])
  | '"' :: t => readString t
  | t => .error (refuse "a string" t)

/-- Reads a boolean. -/
def wantBool (t : Text) : Scan Bool :=
  match skipGaps t with
  | [] => .error (.at .endInValue [])
  | 't' :: t => literal true "rue".toList t
  | 'f' :: t => literal false "alse".toList t
  | t => .error (refuse "a boolean" t)

/-! ## Arrays -/

/-- What comes next in an array: another element or the end.  A comma stands before every element
but the first. -/
inductive Next where
  | element (rest : Text)
  | close (rest : Text)

/-- Looks for the next element of an array; `close` keeps the bracket. -/
def nextElement (first : Bool) (t : Text) : Except Halt Next :=
  match skipGaps t with
  | [] => .error (.at .endInList [])
  | ']' :: t => .ok (.close (']' :: t))
  | c :: t =>
    if first then .ok (.element (c :: t))
    else if c = ',' then
      match skipGaps t with
      | [] => .error (.at .endInValue [])
      | ']' :: t => .error (.at .trailingComma (']' :: t))
      | t => .ok (.element t)
    else .error (.at .expectedListEnd (c :: t))

/-- Reads the elements of an array, at most `fuel` of them; stops before the bracket. -/
def readElements (want : Text → Scan α) (first : Bool) :
    Nat → Text → Except Halt (List α × Text)
  | 0, t => .error (.at .endInList t)
  | fuel + 1, t => do
    match ← nextElement first t with
    | .close t => return ([], t)
    | .element t =>
      let (a, t) ← want t
      let (as, t) ← readElements want false fuel t
      return (a :: as, t)

/-- Ends an array. -/
def endArray (t : Text) : Except Halt Text :=
  match skipGaps t with
  | [] => .error (.at .endInList [])
  | ']' :: t => .ok t
  | ',' :: t =>
    match skipGaps t with
    | ']' :: t => .error (.at .trailingComma (']' :: t))
    | t => .error (.at .trailingCharacters t)
  | t => .error (.at .trailingCharacters t)

/-- Nothing but gaps may follow a value. -/
def endText (t : Text) : Except Halt Unit :=
  match skipGaps t with
  | [] => .ok ()
  | t => .error (.at .trailingCharacters t)

/-- Reads an array of strings that is the whole text. -/
def scanStrings (t : Text) : Except Halt (List Text) :=
  match skipGaps t with
  | [] => .error (.at .endInValue [])
  | '[' :: t => do
    let (items, rest) ← readElements wantString true (t.length + 1) t
    endText (← endArray rest)
    return items
  | t => .error (refuse "a sequence" t)

/-- Reads an array of strings that is the whole text, or says what is wrong and where. -/
def readStrings (t : Text) : Except Fault (List Text) :=
  (scanStrings t).mapError (·.locate t)

example : readStrings "[\"a\", \"\\u00e9\"]".toList = .ok ["a".toList, "é".toList] := by cbv

/-! ## Objects -/

/-- Looks for the next key of an object and reads it; `none` at the brace, which is kept. -/
def nextKey (first : Bool) (t : Text) : Except Halt (Option Text × Text) :=
  let key (t : Text) : Except Halt (Option Text × Text) :=
    (readString t).map fun r => (some r.1, r.2)
  match skipGaps t with
  | [] => .error (.at .endInObject [])
  | '\x7d' :: t => .ok (none, '\x7d' :: t)
  | c :: t =>
    if first then
      if c = '"' then key t else .error (.at .keyNotString (c :: t))
    else if c = ',' then
      match skipGaps t with
      | [] => .error (.at .endInValue [])
      | '"' :: t => key t
      | '\x7d' :: t => .error (.at .trailingComma ('\x7d' :: t))
      | t => .error (.at .keyNotString t)
    else .error (.at .expectedObjectEnd (c :: t))

/-- Skips the colon after a key. -/
def skipColon (t : Text) : Except Halt Text :=
  match skipGaps t with
  | [] => .error (.at .endInObject [])
  | ':' :: t => .ok t
  | t => .error (.at .expectedColon t)

/-- Skips a brace that ends an object, if it comes next. -/
def skipBrace (t : Text) : Text :=
  match skipGaps t with
  | '\x7d' :: t => t
  | t => t

/-! ## Values of any kind -/

/-- The brackets that values are nested in. -/
inductive Bracket where
  | square
  | brace
  deriving DecidableEq

/-- The key of a field, skipped with its colon. -/
def skipKey (t : Text) : Except Halt Text :=
  match skipGaps t with
  | [] => .error (.at .endInObject [])
  | '"' :: t => do skipColon (← skipString t)
  | t => .error (.at .keyNotString t)

/-- Goes on after a value that was skipped, or after a bracket that was opened (`first`): to the
next member, or out of the innermost bracket and on from there.  Yields the brackets still open and
the text of the next value, or the text after the outermost value. -/
def afterSkipped : List Bracket → Bool → Text → Except Halt (List Bracket × Text)
  | [], _, t => .ok ([], t)
  | b :: outer, first, t =>
    let member (t : Text) : Except Halt (List Bracket × Text) :=
      match b with
      | .square => .ok (b :: outer, t)
      | .brace => do return (b :: outer, ← skipKey t)
    match skipGaps t with
    | [] => .error (.at (match b with | .square => .endInList | .brace => .endInObject) [])
    | c :: t =>
      if c = (match b with | .square => ']' | .brace => '\x7d') then afterSkipped outer false t
      else if first then member (c :: t)
      else if c = ',' then member t
      else
        .error (.at (match b with | .square => .expectedListEnd | .brace => .expectedObjectEnd)
          (c :: t))

/-- Skips a value inside the brackets `open`, then everything up to their ends. -/
def skipNested : Nat → List Bracket → Text → Except Halt Text
  | 0, _, t => .error (.at .expectedValue t)
  | fuel + 1, outer, t => do
    let goOn (outer : List Bracket) (first : Bool) (t : Text) : Except Halt Text := do
      match ← afterSkipped outer first t with
      | ([], t) => return t
      | (outer, t) => skipNested fuel outer t
    match skipGaps t with
    | [] => .error (.at .endInValue [])
    | 'n' :: t => do goOn outer false (← literal () "ull".toList t).2
    | 't' :: t => do goOn outer false (← literal () "rue".toList t).2
    | 'f' :: t => do goOn outer false (← literal () "alse".toList t).2
    | '-' :: t => do goOn outer false (← skipNumber t)
    | '"' :: t => do goOn outer false (← skipString t)
    | '[' :: t => goOn (.square :: outer) true t
    | '\x7b' :: t => goOn (.brace :: outer) true t
    | c :: t =>
      if c.isDigit then do goOn outer false (← skipNumber (c :: t))
      else .error (.at .expectedValue (c :: t))

/-- Skips a value of any kind. -/
def skipValue (t : Text) : Except Halt Text := skipNested (t.length + 1) [] t

mutual

/-- Reads a value of any kind. -/
def readValue : Nat → Text → Except Halt (Json × Text)
  | 0, t => .error (.at .expectedValue t)
  | fuel + 1, t => do
    match skipGaps t with
    | 'n' :: t => literal .null "ull".toList t
    | 't' :: t => literal (.bool true) "rue".toList t
    | 'f' :: t => literal (.bool false) "alse".toList t
    | '"' :: t => (readString t).map fun r => (.text r.1, r.2)
    | '[' :: t =>
      let (items, t) ← readElements (readValue fuel) true fuel t
      return (.arr items, ← endArray t)
    | '\x7b' :: t =>
      let (fields, t) ← readFields fuel true t
      return (.obj fields, skipBrace t)
    | '-' :: t => (readNumber true t).map fun r => (.num r.1, r.2)
    | t => (readNumber false t).map fun r => (.num r.1, r.2)

/-- Reads the fields of an object; stops before the brace. -/
def readFields : Nat → Bool → Text → Except Halt (List (String × Json) × Text)
  | 0, _, t => .error (.at .endInObject t)
  | fuel + 1, first, t => do
    match ← nextKey first t with
    | (none, t) => return ([], t)
    | (some k, t) =>
      let (v, t) ← readValue fuel (← skipColon t)
      let (fields, t) ← readFields fuel false t
      return ((str k, v) :: fields, t)

end

/-- Reads a value that is the whole text. -/
def read? (t : Text) : Option Json :=
  match readValue (t.length + 1) t with
  | .ok (v, rest) => if (skipGaps rest).isEmpty then some v else none
  | .error _ => none

end Containerfile.Json
