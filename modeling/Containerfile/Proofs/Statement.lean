import Containerfile.Grammar.Instruction
import Containerfile.Proofs.Grammar.Basic
import Containerfile.Proofs.Text.Trim

/-! # Taking statements apart

A statement is read back from its keyword and its arguments where these are trimmed and could not be
taken for flags or for a JSON array.  `Grammar.line` puts the two halves of reading a logical line
together, the statement and its grammar. -/
namespace Containerfile

/-- Reads the instruction of a logical line. -/
def Grammar.line (l : LogicalLine) : Grammar Instruction := do
  Grammar.instruction (← ofExcept (Statement.ofLine l))

namespace Keyword

theorem text_ne_nil (k : Keyword) : k.text ≠ [] := by cases k <;> decide

theorem text_blankless (k : Keyword) : ∀ c ∈ k.text, isBlank c = false := by
  have hall : k.text.all (fun c => !isBlank c) = true := by cases k <;> decide
  intro c hc
  simpa using List.all_eq_true.mp hall c hc

end Keyword

theorem looksLikeExecForm_eq_false {t : Text} (ht : Text.Trimmed t) (h : t.head? ≠ some '[') :
    looksLikeExecForm t = false := by
  rw [looksLikeExecForm, Text.trim_eq_self ht]
  split
  · exact absurd rfl h
  · rfl

namespace Statement

/-- Flags begin with a dash. -/
theorem readFlags_eq_nil {t : Text} (ht : Text.Trimmed t) (h : t.head? ≠ some '-') :
    readFlags t = ([], t) := by
  have hfirst : (Text.firstWord t).1.head? ≠ some '-' := by
    rw [Text.firstWord, Text.trim_eq_self ht, List.head?_takeWhile]
    intro hdash
    exact h (Option.filter_eq_some_iff.mp hdash).1
  rw [readFlags]
  split
  · rename_i hdash
    exact absurd (by rw [hdash]; rfl) hfirst
  · rfl

/-- The flags before the arguments, where a keyword allows flags. -/
def splitFlags (k : Keyword) (t : Text) : List Flag × Text :=
  if k.acceptsFlags then readFlags t else ([], t)

/-- The arguments, in the form that a keyword allows. -/
def readArguments (k : Keyword) (t : Text) (lines : LineSpan) : Except Failure Arguments :=
  if k.acceptsExecForm && looksLikeExecForm t then (readExecForm k t lines).map .exec
  else .ok (.text t)

/-- **What taking a statement apart comes to.** -/
theorem read_eq (t : Text) (lines : LineSpan) (heredocs : List Heredoc) :
    read t lines heredocs =
      match Keyword.read? (Text.firstWord t).1 with
      | none => .error (.unknownInstruction (Text.firstWord t).1 lines)
      | some k =>
        (readArguments k (splitFlags k (Text.firstWord t).2).2 lines).map fun args =>
          ⟨k, (Text.firstWord t).2, (splitFlags k (Text.firstWord t).2).1, args, lines,
            heredocs⟩ := by
  unfold read
  simp only
  cases Keyword.read? (Text.firstWord t).1 with
  | none => rfl
  | some k =>
    simp only
    rw [← splitFlags, readArguments]
    split
    · cases readExecForm k (splitFlags k (Text.firstWord t).2).2 lines <;> rfl
    · rfl

/-- **What is taken apart, part by part.** -/
theorem read_eq_ok_iff {t : Text} {lines : LineSpan} {heredocs : List Heredoc} {s : Statement} :
    read t lines heredocs = .ok s ↔ Keyword.read? (Text.firstWord t).1 = some s.keyword ∧
      readArguments s.keyword (splitFlags s.keyword (Text.firstWord t).2).2 lines = .ok s.args ∧
      s = ⟨s.keyword, (Text.firstWord t).2, (splitFlags s.keyword (Text.firstWord t).2).1, s.args,
        lines, heredocs⟩ := by
  rw [read_eq]
  constructor
  · intro h
    split at h
    · cases h
    · rename_i k hk
      cases hargs : readArguments k (splitFlags k (Text.firstWord t).2).2 lines with
      | error f =>
        rw [hargs] at h
        cases h
      | ok args =>
        rw [hargs] at h
        cases h
        exact ⟨hk, hargs, rfl⟩
  · rintro ⟨hk, hargs, hs⟩
    rw [hk]
    simp only
    rw [hargs, hs]
    rfl

/-- A statement keeps the lines and the heredocs that it was read with. -/
theorem read_lines {t : Text} {lines : LineSpan} {heredocs : List Heredoc} {s : Statement}
    (h : read t lines heredocs = .ok s) : s.lines = lines ∧ s.heredocs = heredocs := by
  obtain ⟨-, -, hs⟩ := read_eq_ok_iff.mp h
  rw [hs]
  exact ⟨rfl, rfl⟩

/-- The keyword of a statement is the first word of its text. -/
theorem keyword_of_read {t : Text} {lines : LineSpan} {heredocs : List Heredoc} {s : Statement}
    (h : read t lines heredocs = .ok s) :
    Keyword.read? (Text.firstWord t).1 = some s.keyword := (read_eq_ok_iff.mp h).1

/-- The statement of a keyword and of arguments that are words and no flags. -/
def ofWords (k : Keyword) (args : Text) (lines : LineSpan) (heredocs : List Heredoc) :
    Statement :=
  ⟨k, args, [], .text args, lines, heredocs⟩

variable {k : Keyword} {args : Text} {lines : LineSpan} {heredocs : List Heredoc}

@[simp] theorem text_ofWords : (ofWords k args lines heredocs).text = args := rfl

/-- **A statement whose arguments are neither flags nor a JSON array.**  Where flags may
stand, the arguments do not begin with a dash; where a JSON array may stand, they do not
begin with a bracket. -/
theorem read_of_trim (hf : k.acceptsFlags = true → args.trim.head? ≠ some '-')
    (he : k.acceptsExecForm = true → args.trim.head? ≠ some '[') :
    read (k.text ++ ' ' :: args) lines heredocs = .ok (ofWords k args.trim lines heredocs) := by
  have ht := Text.trimmed_trim args
  have hword : Text.firstWord (k.text ++ ' ' :: args) = (k.text, args.trim) :=
    Text.firstWord_append_blank k.text_ne_nil k.text_blankless
  have hflags : splitFlags k args.trim = ([], args.trim) := by
    rw [splitFlags]
    by_cases hk : k.acceptsFlags = true
    · rw [if_pos hk, readFlags_eq_nil ht (hf hk)]
    · rw [if_neg hk]
  have hargs : readArguments k args.trim lines = .ok (.text args.trim) := by
    rw [readArguments]
    by_cases hk : k.acceptsExecForm = true
    · rw [looksLikeExecForm_eq_false ht (he hk), Bool.and_false]
      rfl
    · rw [Bool.eq_false_iff.mpr hk, Bool.false_and]
      rfl
  rw [read_eq, hword, Keyword.read?_text]
  simp only
  rw [hflags, hargs]
  rfl

/-- **A statement that is plain words.** -/
theorem read_of_plain (ht : Text.Trimmed args)
    (hf : k.acceptsFlags = true → args.head? ≠ some '-')
    (he : k.acceptsExecForm = true → args.head? ≠ some '[') :
    read (k.text ++ ' ' :: args) lines heredocs = .ok (ofWords k args lines heredocs) := by
  have htrim := Text.trim_eq_self ht
  rw [← htrim] at hf he
  have hread : read (k.text ++ ' ' :: args) lines heredocs =
      .ok (ofWords k args.trim lines heredocs) :=
    read_of_trim hf he
  rwa [htrim] at hread

end Statement

theorem Grammar.line_of_read {l : LogicalLine} {s : Statement} (h : Statement.ofLine l = .ok s)
    (cx : Context) : line l cx = instruction s cx := by
  have hs : ofExcept (Statement.ofLine l) cx = ⟨.ok s, []⟩ := by rw [ofExcept_run, h]
  rw [line, bind_of_ok hs, List.nil_append]

theorem Grammar.line_of_read_error {l : LogicalLine} {f : Failure}
    (h : Statement.ofLine l = .error f) (cx : Context) : line l cx = ⟨.error f, []⟩ :=
  bind_of_error (by rw [ofExcept_run, h])

end Containerfile
