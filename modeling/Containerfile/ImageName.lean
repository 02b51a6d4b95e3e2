import Containerfile.Text.Basic

/-! # Image names

The name of an image as it is written: registry, repository, tag and digest.  What is missing stays
missing; nothing is filled in, so that the parts put together again are the name. -/
namespace Containerfile

/-- An image name in its parts. -/
structure ImageName where
  registry : Option Text
  repository : Text
  tag : Option Text
  digest : Option Text
  deriving DecidableEq, Repr

/-- Why a text is no image name. -/
inductive ImageFault where
  | empty
  | blankInside (name : Text)
  | badDigest (name : Text)
  | missingRepository (name : Text)
  | emptyTag (name : Text)
  | emptyRepository (name : Text)
  deriving DecidableEq, Repr

namespace ImageFault

/-- What is wrong with the name. -/
def detail : ImageFault → String
  | empty => "empty image reference"
  | blankInside name => s!"image reference '{str name}' contains whitespace"
  | badDigest name => s!"invalid digest in reference '{str name}': expected algorithm:hex"
  | missingRepository name => s!"missing repository in reference '{str name}'"
  | emptyTag name => s!"empty tag in reference '{str name}'"
  | emptyRepository name => s!"empty repository in reference '{str name}'"

/-- The wording of a fault. -/
def message (f : ImageFault) : String := s!"Invalid image reference: {f.detail}"

end ImageFault

namespace ImageName

/-- Splits the digest off: what follows the first `@`. -/
def splitDigest (t : Text) : Text × Option Text :=
  match Text.splitOnce '@' t with
  | some (name, digest) => (name, some digest)
  | none => (t, none)

/-- Splits the tag off a part without slashes: what follows the last colon. -/
def splitColon (t : Text) : Text × Option Text :=
  match Text.splitLast ':' t with
  | some (name, tag) => (name, some tag)
  | none => (t, none)

/-- Splits the tag off: what follows the last colon after the last slash. -/
def splitTag (t : Text) : Text × Option Text :=
  match Text.splitLast '/' t with
  | some (path, last) => (path ++ '/' :: (splitColon last).1, (splitColon last).2)
  | none => splitColon t

/-- Whether the first part of a path is the name of a host. -/
def isHost (t : Text) : Bool := t.contains '.' || t.contains ':' || t == "localhost".toList

/-- Splits the registry off: the first part of the path, if it is the name of a host. -/
def splitRegistry (t : Text) : Option Text × Text :=
  match Text.splitOnce '/' t with
  | some (first, rest) => if isHost first then (some first, rest) else (none, t)
  | none => (none, t)

/-- Reads a name that has no blanks around it. -/
def readTrimmed (t : Text) : Except ImageFault ImageName :=
  if t.isEmpty then .error .empty
  else if t.any isBlank then .error (.blankInside t)
  else
    let (named, digest) := splitDigest t
    if (digest.map fun d => !d.contains ':').getD false then .error (.badDigest t)
    else
      let (path, tag) := splitTag named
      if path.isEmpty then .error (.missingRepository t)
      else if tag = some [] then .error (.emptyTag t)
      else
        let (registry, repository) := splitRegistry path
        if repository.isEmpty then .error (.emptyRepository t)
        else .ok ⟨registry, repository, tag, digest⟩

/-- Reads an image name; blanks around it do not count. -/
def read (t : Text) : Except ImageFault ImageName := readTrimmed t.trim

/-- Registry and repository. -/
def path (n : ImageName) : Text :=
  match n.registry with
  | some registry => registry ++ '/' :: n.repository
  | none => n.repository

/-- A mark and a part, if there is the part. -/
def marked (mark : Char) : Option Text → Text
  | some part => mark :: part
  | none => []

/-- The name as it was written. -/
def render (n : ImageName) : Text := n.path ++ marked ':' n.tag ++ marked '@' n.digest

/-- Whether the name is a single word, the only kind that can name a stage. -/
def isBare (n : ImageName) : Bool :=
  n.registry.isNone && n.tag.isNone && n.digest.isNone && !n.repository.contains '/'

/-- Whether a text has one of the marks that only the name of an image has. -/
def isQualified (t : Text) : Bool := t.any fun c => c == '/' || c == ':' || c == '@'

/-- The first part is a registry because of its colon. -/
example : read " localhost:5000/app:1@sha256:0 ".toList =
    .ok ⟨some "localhost:5000".toList, "app".toList, some "1".toList, some "sha256:0".toList⟩ := by
  rfl

end ImageName

end Containerfile
