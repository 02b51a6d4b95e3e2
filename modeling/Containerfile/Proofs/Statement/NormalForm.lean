import Containerfile.Proofs.Statement
import Containerfile.Proofs.Text.Case
import Containerfile.Proofs.Text.OneLine

/-! # Statements in normal form

A statement whose arguments are text has a normal form: its keyword, its flags as they are
printed and its arguments, with single spaces between.  Taking it apart gives the same
statement.  What the flags leave is trimmed and begins with no further flag, so reading flags a
second time takes none (`readFlags_again`), and a printed flag is one word that is read as the
flag that was printed (`Flag.Lexed`).

Main statement: `Statement.normalForm_of_read`. -/
namespace Containerfile

/-! ## Flags -/

/-- A flag that is read from the word that it is printed as. -/
structure Flag.Lexed (f : Flag) : Prop where
  blankless : ∀ c ∈ f.render, isBlank c = false
  read : ∃ c body, f.render = '-' :: '-' :: c :: body ∧ Statement.flagOf (c :: body) = f

namespace Statement

variable {t a rest : Text} {f : Flag} {flags : List Flag} {k : Keyword}

/-- What stands behind the dashes of a flag, its name in small letters. -/
theorem render_flagOf (body : Text) : ∃ body', (flagOf body).render = '-' :: '-' :: body' ∧
    flagOf body' = flagOf body ∧ (body' = [] → body = []) ∧
    ((∀ c ∈ body, isBlank c = false) → ∀ c ∈ body', isBlank c = false) := by
  cases hsplit : Text.splitOnce '=' body with
  | none =>
    have hequals : '=' ∉ body.lower := by
      rw [Text.mem_lower_iff (by decide)]
      exact Text.splitOnce_eq_none_iff.mp hsplit
    refine ⟨body.lower, by simp [flagOf, hsplit, Flag.render], ?_, ?_, Text.blankless_lower⟩
    · simp [flagOf, hsplit, Text.splitOnce_eq_none_iff.mpr hequals, Text.lower_lower]
    · exact List.map_eq_nil_iff.mp
  | some p =>
    obtain ⟨name, value⟩ := p
    obtain ⟨rfl, hname⟩ := Text.splitOnce_eq_some hsplit
    have hequals : '=' ∉ name.lower := by
      rwa [Text.mem_lower_iff (by decide)]
    refine ⟨name.lower ++ '=' :: value, by simp [flagOf, hsplit, Flag.render], ?_, by simp, ?_⟩
    · simp [flagOf, hsplit, Text.splitOnce_append hequals, Text.lower_lower]
    · intro h c hc
      rcases List.mem_append.mp hc with hc | hc
      · exact Text.blankless_lower (fun d hd => h d (List.mem_append_left _ hd)) c hc
      · exact h c (List.mem_append_right _ hc)

theorem lexed_flagOf {c : Char} {body : Text} (h : ∀ d ∈ c :: body, isBlank d = false) :
    (flagOf (c :: body)).Lexed := by
  obtain ⟨body', hrender, hread, hnil, hblank⟩ := render_flagOf (c :: body)
  obtain ⟨d, body', rfl⟩ := List.exists_cons_of_ne_nil fun he => List.cons_ne_nil c body (hnil he)
  refine ⟨?_, d, body', hrender, hread⟩
  rw [hrender, List.forall_mem_cons, List.forall_mem_cons]
  exact ⟨by decide, by decide, hblank h⟩

/-! ## Reading flags -/

theorem readFlags_of_flag {c : Char} {body : Text}
    (h : (Text.firstWord t).1 = '-' :: '-' :: c :: body) :
    readFlags t = (flagOf (c :: body) :: (readFlags (Text.firstWord t).2).1,
      (readFlags (Text.firstWord t).2).2) := by
  rw [readFlags]
  split
  · rename_i d body' hd
    rw [h] at hd
    cases hd
    rfl
  · rename_i hnone
    exact absurd h (hnone c body)

theorem readFlags_of_none
    (h : ∀ c body, (Text.firstWord t).1 ≠ '-' :: '-' :: c :: body) : readFlags t = ([], t) := by
  rw [readFlags]
  split
  · rename_i c body hword
    exact absurd hword (h c body)
  · rfl

/-- **All flags are taken**, and what they leave is trimmed. -/
theorem readFlags_again (ht : Text.Trimmed t) :
    readFlags (readFlags t).2 = ([], (readFlags t).2) ∧ Text.Trimmed (readFlags t).2 ∧
      ∀ f ∈ (readFlags t).1, f.Lexed := by
  induction t using readFlags.induct with
  | case1 t c body hword _ _ _ ih =>
    obtain ⟨hagain, htrimmed, hflags⟩ := ih (Text.trimmed_firstWord_snd t)
    have hbody : ∀ d ∈ c :: body, isBlank d = false := by
      intro d hd
      apply Text.firstWord_fst_blankless t
      rw [hword]
      exact List.mem_cons_of_mem _ (List.mem_cons_of_mem _ hd)
    rw [readFlags_of_flag hword]
    exact ⟨hagain, htrimmed, List.forall_mem_cons.mpr ⟨lexed_flagOf hbody, hflags⟩⟩
  | case2 t hnone =>
    rw [readFlags_of_none hnone]
    exact ⟨readFlags_of_none hnone, ht, by simp⟩

/-- What is not taken for a flag does not look like one. -/
theorem isBlank_of_readFlags {c : Char} {u : Text} (ht : Text.Trimmed ('-' :: '-' :: c :: u))
    (h : readFlags ('-' :: '-' :: c :: u) = ([], '-' :: '-' :: c :: u)) : isBlank c = true := by
  by_contra hc
  have hdash : (!isBlank '-') = true := by decide
  have hword : (Text.firstWord ('-' :: '-' :: c :: u)).1 =
      '-' :: '-' :: c :: u.takeWhile (!isBlank ·) := by
    rw [Text.firstWord, Text.trim_eq_self ht]
    simp [List.takeWhile_cons, hdash, hc]
  rw [readFlags_of_flag hword] at h
  cases (Prod.mk.inj h).1

/-- **Printed flags are read back**, with what they left behind them. -/
theorem readFlags_join (hflags : ∀ f ∈ flags, f.Lexed) (ha : readFlags a = ([], a))
    (htrimmed : Text.Trimmed a) :
    readFlags (Text.trim (Text.join [' '] (flags.map Flag.render ++ [a]))) = (flags, a) := by
  induction flags with
  | nil => rw [List.map_nil, List.nil_append, Text.join, List.intercalate_singleton,
      Text.trim_eq_self htrimmed, ha]
  | cons f flags ih =>
    rw [List.forall_mem_cons] at hflags
    obtain ⟨⟨hblank, c, body, hrender, hread⟩, hflags⟩ := hflags
    obtain ⟨part, parts, hparts⟩ : ∃ part parts, flags.map Flag.render ++ [a] = part :: parts :=
      List.exists_cons_of_ne_nil (by simp)
    have hword :
        Text.firstWord (Text.trim (Text.join [' '] ((f :: flags).map Flag.render ++ [a]))) =
        ('-' :: '-' :: c :: body, Text.trim (Text.join [' '] (flags.map Flag.render ++ [a]))) := by
      rw [Text.firstWord_trim, List.map_cons, List.cons_append, hparts, Text.join_cons_cons,
        List.append_assoc, List.singleton_append,
        Text.firstWord_append_blank (by simp [hrender]) hblank, hrender]
    rw [readFlags_of_flag (congrArg Prod.fst hword), hword, ih hflags, hread]

/-! ## Statements -/

/-- The keyword, the flags and the arguments, with single spaces between. -/
def normalForm (s : Statement) : Text :=
  Text.join [' '] (s.keyword.text :: (s.flags.map Flag.render ++ [s.text]))

theorem splitFlags_again (ht : Text.Trimmed t) (h : splitFlags k t = (flags, a)) :
    splitFlags k (Text.trim (Text.join [' '] (flags.map Flag.render ++ [a]))) = (flags, a) ∧
      (k.acceptsFlags = true → ∀ c u, a = '-' :: '-' :: c :: u → isBlank c = true) := by
  rw [splitFlags] at h
  by_cases hk : k.acceptsFlags = true
  · rw [if_pos hk] at h
    obtain ⟨hagain, htrimmed, hflags⟩ := readFlags_again ht
    rw [h] at hagain htrimmed hflags
    rw [splitFlags, if_pos hk, readFlags_join hflags hagain htrimmed]
    refine ⟨rfl, fun _ c u hu => ?_⟩
    subst hu
    exact isBlank_of_readFlags htrimmed hagain
  · rw [if_neg hk] at h
    cases h
    rw [splitFlags, if_neg hk, List.map_nil, List.nil_append, Text.join, List.intercalate_singleton,
      Text.trim_eq_self ht]
    exact ⟨rfl, fun h => absurd h hk⟩

variable {lines : LineSpan} {heredocs : List Heredoc} {s : Statement}

/-- Arguments that are text are all that the flags leave, and on other lines they are the same. -/
theorem readArguments_text (h : readArguments k t lines = .ok (.text a)) (lines' : LineSpan) :
    t = a ∧ readArguments k t lines' = .ok (.text a) := by
  rw [readArguments] at h ⊢
  split at h
  · cases hexec : readExecForm k t lines with
    | error f =>
      rw [hexec] at h
      cases h
    | ok items =>
      rw [hexec] at h
      cases h
  · rename_i hexec
    cases h
    rw [if_neg hexec]
    exact ⟨rfl, rfl⟩

/-- **Statements have a normal form.**  Where the arguments of a statement are text, its normal form
is taken apart into the same keyword, flags and arguments in the same form, on whatever lines and
with whatever heredocs it stands; and where flags are allowed, what is left as arguments does not
begin with two dashes and a visible character, so all leading flags were taken. -/
theorem normalForm_of_read (h : read t lines heredocs = .ok s) (ha : s.args = .text a) :
    (∀ lines' heredocs', ∃ s', read s.normalForm lines' heredocs' = .ok s' ∧
        s'.keyword = s.keyword ∧ s'.flags = s.flags ∧ s'.form = s.form ∧ s'.args = s.args) ∧
      (s.keyword.acceptsFlags = true → ∀ c u, a = '-' :: '-' :: c :: u → isBlank c = true) := by
  obtain ⟨-, hargs, hs⟩ := read_eq_ok_iff.mp h
  rw [ha] at hargs
  have hsplit : splitFlags s.keyword (Text.firstWord t).2 = (s.flags, a) :=
    Prod.ext (congrArg flags hs).symm (readArguments_text hargs lines).1
  rw [hsplit] at hargs
  obtain ⟨hagain, hflag⟩ := splitFlags_again (Text.trimmed_firstWord_snd t) hsplit
  refine ⟨fun lines' heredocs' => ?_, hflag⟩
  have hword : Text.firstWord s.normalForm =
      (s.keyword.text, Text.trim (Text.join [' '] (s.flags.map Flag.render ++ [a]))) := by
    obtain ⟨part, parts, hparts⟩ : ∃ part parts, s.flags.map Flag.render ++ [a] = part :: parts :=
      List.exists_cons_of_ne_nil (by simp)
    rw [normalForm, text, ha, Arguments.joined, hparts, Text.join_cons_cons, List.append_assoc,
      List.singleton_append,
      Text.firstWord_append_blank s.keyword.text_ne_nil s.keyword.text_blankless]
  have hread : read s.normalForm lines' heredocs' =
      .ok ⟨s.keyword, (Text.firstWord s.normalForm).2, s.flags, .text a, lines', heredocs'⟩ := by
    rw [read_eq_ok_iff, hword, hagain]
    exact ⟨Keyword.read?_text s.keyword, (readArguments_text hargs lines').2, rfl⟩
  exact ⟨_, hread, rfl, rfl, by rw [form, form, ha], ha.symm⟩

/-- Two dashes alone are no flag, and a shell test is no JSON array. -/
theorem normalForm_of_read_dashes :
    ∃ s, read "run  --Mount=Type=cache --X   --  [ -f a ]".toList (.single 1) [] = .ok s ∧
      s.args = .text "--  [ -f a ]".toList ∧
      s.normalForm = "RUN --mount=Type=cache --x --  [ -f a ]".toList ∧
      ∃ s', read "RUN --mount=Type=cache --x --  [ -f a ]".toList (.single 7) [] = .ok s' ∧
        s'.flags = [⟨"mount".toList, some "Type=cache".toList⟩, ⟨"x".toList, none⟩] ∧
        s'.args = .text "--  [ -f a ]".toList := by
  have hread : read "run  --Mount=Type=cache --X   --  [ -f a ]".toList (.single 1) [] =
      .ok ⟨.run, "--Mount=Type=cache --X   --  [ -f a ]".toList,
        [⟨"mount".toList, some "Type=cache".toList⟩, ⟨"x".toList, none⟩],
        .text "--  [ -f a ]".toList, .single 1, []⟩ := by
    decide +kernel
  obtain ⟨s', hagain, -, hflags, -, hargs⟩ := (normalForm_of_read hread rfl).1 (.single 7) []
  exact ⟨_, hread, rfl, by decide, s', hagain, hflags, hargs⟩

end Statement

end Containerfile
