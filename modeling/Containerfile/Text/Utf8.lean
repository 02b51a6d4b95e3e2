import Containerfile.Text.Basic

/-! # UTF-8

Reads bytes as text.  A sequence is refused at the first byte that no character allows there:
overlong forms, surrogates and values above U+10FFFF are refused at their second byte. -/
namespace Containerfile

/-- Where bytes stop being UTF-8: the index of the first byte of the bad sequence, and the number
of its bytes that were good, or `none` if the bytes end inside a sequence that is good so far. -/
structure Utf8Fault where
  index : Nat
  length : Option Nat
  deriving DecidableEq, Repr

namespace Utf8Fault

/-- The wording of a fault. -/
def message (f : Utf8Fault) : String :=
  match f.length with
  | some n => s!"invalid utf-8 sequence of {n} bytes from index {f.index}"
  | none => s!"incomplete utf-8 byte sequence from index {f.index}"

end Utf8Fault

namespace Utf8

/-- What a first byte announces: its payload bits, and the range of each byte that must follow. -/
structure Lead where
  payload : Nat
  following : List (Nat × Nat)

/-- The range of a byte that continues a sequence. -/
def continuation : Nat × Nat := (0x80, 0xbf)

/-- What the first byte of a character announces, if a character can start with it. -/
def lead (b : Nat) : Option Lead :=
  if b ≤ 0x7f then some ⟨b, []⟩
  else if b < 0xc2 then none
  else if b ≤ 0xdf then some ⟨b - 0xc0, [continuation]⟩
  else if b = 0xe0 then some ⟨0, [(0xa0, 0xbf), continuation]⟩
  else if b = 0xed then some ⟨0xd, [(0x80, 0x9f), continuation]⟩
  else if b ≤ 0xef then some ⟨b - 0xe0, [continuation, continuation]⟩
  else if b = 0xf0 then some ⟨0, [(0x90, 0xbf), continuation, continuation]⟩
  else if b ≤ 0xf3 then some ⟨b - 0xf0, [continuation, continuation, continuation]⟩
  else if b = 0xf4 then some ⟨4, [(0x80, 0x8f), continuation, continuation]⟩
  else none

/-- Reads the bytes that follow a first byte.  `good` counts the good bytes of the sequence and
`value` holds the bits read so far.  Yields the character's number and the bytes after it, or the
length to report. -/
def readFollowing (good value : Nat) : List (Nat × Nat) → List Nat →
    Except (Option Nat) (Nat × List Nat)
  | [], bytes => .ok (value, bytes)
  | _ :: _, [] => .error none
  | (low, high) :: ranges, b :: bytes =>
    if low ≤ b ∧ b ≤ high then readFollowing (good + 1) (value * 64 + b % 64) ranges bytes
    else .error (some good)

theorem length_of_readFollowing {good value n : Nat} {ranges : List (Nat × Nat)}
    {bytes rest : List Nat} (h : readFollowing good value ranges bytes = .ok (n, rest)) :
    rest.length ≤ bytes.length := by
  induction ranges generalizing good value bytes with
  | nil => simp only [readFollowing, Except.ok.injEq, Prod.mk.injEq] at h; simp [h.2]
  | cons r ranges ih =>
    cases bytes with
    | nil => simp [readFollowing] at h
    | cons b bytes =>
      simp only [readFollowing] at h
      split at h
      · exact Nat.le_succ_of_le (ih h)
      · cases h

/-- Reads bytes, the first of which has the given index. -/
def decodeFrom (index : Nat) (bytes : List Nat) : Except Utf8Fault Text :=
  match bytes with
  | [] => .ok []
  | b :: rest =>
    match lead b with
    | none => .error ⟨index, some 1⟩
    | some l =>
      match h : readFollowing 1 l.payload l.following rest with
      | .error length => .error ⟨index, length⟩
      | .ok (n, rest') => do
        let t ← decodeFrom (index + (rest.length + 1 - rest'.length)) rest'
        return Char.ofNat n :: t
termination_by bytes.length
decreasing_by
  have := length_of_readFollowing h
  simp only [List.length_cons]
  omega

/-- Reads bytes as text. -/
def decode (bytes : List Nat) : Except Utf8Fault Text := decodeFrom 0 bytes

example : decode [0xe2, 0x82, 0xac] = .ok ['€'] := by cbv

/-- The bytes end inside a character. -/
example : decode [0x41, 0xe2, 0x82] = .error ⟨1, none⟩ := by cbv

/-- A surrogate. -/
example : decode [0xed, 0xa0, 0x80] = .error ⟨0, some 1⟩ := by cbv

end Utf8

end Containerfile
