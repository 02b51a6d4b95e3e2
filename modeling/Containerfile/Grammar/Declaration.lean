import Containerfile.Grammar.Basic
import Containerfile.Instruction.Basic

/-! # Grammars of declarations

ENV, LABEL and ARG, which give names values, and EXPOSE, USER and STOPSIGNAL.  Names are never
expanded. -/
namespace Containerfile.Grammar

/-! ## ENV and LABEL -/

/-- Reads a pair written with `=`. -/
def pair (s : Statement) (w : Text) : Grammar KeyValue := do
  let cx ← context
  match Word.cut? cx.escape '=' w with
  | none => malformed s (.missingEquals w)
  | some (name, raw) =>
    let key := Word.value cx.escape name
    if key.isEmpty then malformed s .blankName
    else
      let (value, quoting) ← word .everywhere raw
      return ⟨key, value, quoting, true⟩

/-- Reads a single pair whose value is the rest of the line after the first word. -/
def restOfLine (s : Statement) (first : Text) : Grammar KeyValue := do
  let rest := (Text.firstWord s.text).2
  if rest.isEmpty then malformed s (.missingValue s.keyword first)
  else
    let key := Word.value (← context).escape first
    let (value, quoting) ← word .everywhere rest
    return ⟨key, value, quoting, false⟩

/-- Reads the pairs of ENV and LABEL. -/
def pairs (s : Statement) : Grammar (List KeyValue) := do
  match ← rawWords s.text with
  | [] => malformed s (.missingArguments s.keyword)
  | first :: others =>
    -- the first word decides for all of them
    if (Word.cut? (← context).escape '=' first).isNone then
      return [← restOfLine s first]
    else (first :: others).mapM' (pair s)

/-! ## ARG -/

/-- Reads a declaration.  Its name is taken as it stands. -/
def declaration (s : Statement) (w : Text) : Grammar ArgDecl := do
  match Word.cut? (← context).escape '=' w with
  | none =>
    if w.isEmpty then malformed s .blankName else return ⟨w, none, .unquoted⟩
  | some (name, raw) =>
    -- the default is expanded first, so that its references count even if the name is missing
    let (value, quoting) ← word .everywhere raw
    if name.isEmpty then malformed s .blankName else return ⟨name, some value, quoting⟩

/-- Reads ARG. -/
def arg (s : Statement) : Grammar Step := do
  match ← rawWords s.text with
  | [] => malformed s (.missingArguments s.keyword)
  | ws => return .arg (← ws.mapM' (declaration s))

/-! ## EXPOSE -/

/-- Whether a text is the number of a port: one to five digits. -/
def isPortNumber (t : Text) : Bool := !t.isEmpty && t.length ≤ 5 && t.all Char.isDigit

/-- Whether a text is the number of a port or a range of them. -/
def isPortRange (t : Text) : Bool :=
  match Text.splitOnce '-' t with
  | some (first, last) => isPortNumber first && isPortNumber last
  | none => isPortNumber t

/-- Reads a protocol in any case. -/
def protocol? (t : Text) : Option Protocol :=
  [.tcp, .udp, .sctp].find? fun p : Protocol => p.name.toList == t.lower

/-- Reads a port with or without a protocol. -/
def readPort (t : Text) : Except Fault Port :=
  match Text.splitOnce '/' t with
  | none => if isPortRange t then .ok ⟨t, none⟩ else .error (.badPort t)
  | some (port, name) =>
    match protocol? name with
    | none => .error (.badProtocol name)
    | some protocol =>
      if isPortRange port then .ok ⟨port, some protocol⟩ else .error (.badPort port)

/-- Reads EXPOSE.  Words that expand to nothing do not count. -/
def expose (s : Statement) : Grammar Step := do
  let specs := (← words s.text).filter (!·.isEmpty)
  match specs.mapM' readPort with
  | .error fault => malformed s fault
  | .ok [] => malformed s .missingPort
  | .ok ports => return .expose ports

/-! ## USER, STOPSIGNAL and MAINTAINER -/

/-- Reads USER: a name and perhaps a group after a colon. -/
def user (s : Statement) : Grammar Step := do
  match ← words s.text with
  | [spec] =>
    let (name, group) : Text × Option Text :=
      match Text.splitOnce ':' spec with
      | some (name, group) => (name, some group)
      | none => (spec, none)
    if name.isEmpty then malformed s .missingUser else return .user name group
  | _ => malformed s .userArity

/-- Reads STOPSIGNAL. -/
def stopsignal (s : Statement) : Grammar Step := do
  match ← words s.text with
  | [c :: signal] => return .stopsignal (c :: signal)
  | _ => malformed s .signalArity

/-- Reads MAINTAINER. -/
def maintainer (s : Statement) : Grammar Text :=
  let name := s.text.trim
  if name.isEmpty then malformed s .missingMaintainer else pure name

end Containerfile.Grammar
