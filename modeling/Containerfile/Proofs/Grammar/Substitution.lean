import Containerfile.Proofs.Expansion.Reference
import Containerfile.Proofs.Statement
import Containerfile.Proofs.Word.Unquote

/-! # Values that are filled in

A word is filled in first and unquoted after that, so the quotes and escape characters of a *value*
are taken for those of the word.  What a reference stands for as a word is therefore the value
unquoted once more, and it is the value itself only where unquoting has nothing to delete:

* `$NAME` and `${NAME}` keep a value that is `Word.Plain`, which has no quote in it, and no escape
  character except at its end;
* `"$NAME"` keeps a value that is `Word.PlainInQuotes`.

Blanks and dollar signs in a value are safe: words are split before they are filled in, and are
filled in once.

Main statement: `Grammar.keeps_iff`, which carries these conditions through ENV, LABEL, ARG, COPY
and ADD. -/
namespace Containerfile

/-- The binding that a reference sees. -/
def Grammar.Visibility.lookup (scope : Scope) : Visibility → Text → Option Binding
  | .everywhere => scope.lookup
  | .globalOnly => scope.global.get?

namespace Scope

/-- The context in which a line is read with the variables of a scope. -/
def context (scope : Scope) (aliases : Aliases) : Context :=
  { escape := scope.escape
    scope := some scope
    aliases := aliases
    deferred := false }

/-- A name that can be referred to, and its value as a reference sees it. -/
structure Shows (scope : Scope) (seen : Grammar.Visibility) (name value : Text) : Prop where
  isName : Reference.isName name = true
  bound : ((seen.lookup scope name).bind Binding.value) = some value

end Scope

/-- What COPY and ADD take files from and to. -/
def Transfer.paths (files : Transfer) : List Text := files.sources ++ [files.destination]

/-- An escape character is no part of a reference, no quote and no blank. -/
theorem escape_ne_of_choice {escape : Char} (he : escape ∈ escapeChoices) :
    escape ≠ '$' ∧ escape ≠ '"' ∧ escape ≠ ' ' ∧ escape ≠ '=' ∧
      Reference.isNameChar escape = false := by
  rcases List.mem_cons.mp he with rfl | he
  · decide
  · rw [List.mem_singleton.mp he]
    decide

namespace Grammar

variable {scope : Scope} {aliases : Aliases} {seen : Visibility} {name value key : Text}

/-! ## Words -/

theorem filling_context (t : Text) :
    filling (scope.context aliases) seen .word t =
      .ofText scope.escape .word (seen.lookup scope) none t := by
  cases seen <;> rfl

theorem plain_value_of_shows (h : scope.Shows seen name value) :
    (Expansion.plain name (seen.lookup scope name)).value = value := by
  rw [Expansion.plain, h.bound]
  rfl

theorem filling_bare (he : scope.escape ∈ escapeChoices) (h : scope.Shows seen name value) :
    (filling (scope.context aliases) seen .word (Reference.bare name)).value = value := by
  rw [filling_context, Expansion.ofText_bare (escape_ne_of_choice he).1 h.isName]
  exact plain_value_of_shows h

theorem filling_braced (he : scope.escape ∈ escapeChoices) (h : scope.Shows seen name value) :
    (filling (scope.context aliases) seen .word (Reference.braced name)).value = value := by
  rw [filling_context, Expansion.ofText_braced (escape_ne_of_choice he).1 h.isName]
  exact plain_value_of_shows h

theorem filling_quoted (he : scope.escape ∈ escapeChoices) (h : scope.Shows seen name value) :
    (filling (scope.context aliases) seen .word ('"' :: Reference.bare name ++ ['"'])).value =
      '"' :: value ++ ['"'] := by
  obtain ⟨hdollar, hquote, -⟩ := escape_ne_of_choice he
  have hv := plain_value_of_shows h
  rw [filling_context, Expansion.ofText_quoted hdollar hquote h.isName]
  simp [Expansion.append, Expansion.literal, hv]

theorem wordValue_eq_iff {raw filled : Text}
    (h : (filling (scope.context aliases) seen .word raw).value = filled) :
    (wordValue seen raw (scope.context aliases)).result = .ok value ↔
      Word.value scope.escape filled = value := by
  rw [wordValue_run, h]
  exact ⟨fun he => Except.ok.inj he, fun he => congrArg Except.ok he⟩

/-- **What a reference is as a word.** -/
theorem word_keeps_iff (he : scope.escape ∈ escapeChoices) (h : scope.Shows seen name value) :
    ((wordValue seen (Reference.bare name) (scope.context aliases)).result = .ok value ↔
        Word.Plain scope.escape value) ∧
      ((wordValue seen (Reference.braced name) (scope.context aliases)).result = .ok value ↔
        Word.Plain scope.escape value) ∧
      ((wordValue seen ('"' :: Reference.bare name ++ ['"']) (scope.context aliases)).result =
          .ok value ↔ Word.PlainInQuotes scope.escape value) := by
  refine ⟨?_, ?_, ?_⟩
  · rw [wordValue_eq_iff (filling_bare he h)]
    exact Word.value_eq_self_iff
  · rw [wordValue_eq_iff (filling_braced he h)]
    exact Word.value_eq_self_iff
  · rw [wordValue_eq_iff (filling_quoted he h)]
    exact Word.value_doubleQuotes_eq_iff (escape_ne_of_choice he).2.1

/-! ## Pairs and declarations -/

/-- A word that is nothing but a reference is split off as it stands. -/
theorem bare_reference (he : scope.escape ∈ escapeChoices) (hn : Reference.isName name = true) :
    Word.Bare scope.escape (Reference.bare name) := by
  obtain ⟨hdollar, -, -, -, hname⟩ := escape_ne_of_choice he
  refine ⟨by simp [Reference.bare], ?_⟩
  intro c hc
  rcases List.mem_cons.mp hc with rfl | hc
  · exact ⟨by decide, by decide, Ne.symm hdollar⟩
  · exact Reference.bareChar_of_isNameChar hname (Reference.isNameChar_of_isName hn c hc)

theorem bare_references (he : scope.escape ∈ escapeChoices) {named : List (Text × Text)}
    (h : ∀ p ∈ named, scope.Shows seen p.1 p.2) :
    ∀ w ∈ named.map fun p => Reference.bare p.1, Word.Bare scope.escape w := by
  intro w hw
  obtain ⟨p, hp, rfl⟩ := List.mem_map.mp hw
  exact bare_reference he (h p hp).isName

/-- A key that is written without quotes or escape characters. -/
structure BareKey (escape : Char) (key : Text) : Prop where
  bare : Word.Bare escape key
  noEquals : '=' ∉ key

theorem BareKey.value_eq {escape : Char} (h : BareKey escape key) :
    Word.value escape key = key := by
  apply Word.value_of_plain
  refine ⟨fun c hc => (h.bare.2 c hc).2.1, ?_⟩
  intro hmem
  exact (h.bare.2 _ (List.dropLast_subset _ hmem)).2.2 rfl

theorem BareKey.not_isEmpty {escape : Char} (h : BareKey escape key) : key.isEmpty = false := by
  rw [List.isEmpty_eq_false_iff]
  exact h.bare.1

/-- A pair is cut at its first equals sign. -/
theorem BareKey.cut {escape : Char} (h : BareKey escape key) (raw : Text) :
    Word.cut? escape '=' (key ++ '=' :: raw) = some (key, raw) :=
  Word.cut?_append h.bare.2 h.noEquals

theorem bare_pair (he : scope.escape ∈ escapeChoices) (hk : BareKey scope.escape key)
    (hn : Reference.isName name = true) :
    Word.Bare scope.escape (key ++ '=' :: Reference.bare name) := by
  refine ⟨by simp, ?_⟩
  intro c hc
  rcases List.mem_append.mp hc with hc | hc
  · exact hk.bare.2 c hc
  · rcases List.mem_cons.mp hc with rfl | hc
    · exact ⟨by decide, by decide, Ne.symm (escape_ne_of_choice he).2.2.2.1⟩
    · exact (bare_reference he hn).2 c hc

/-- The pair that `key=$NAME` is. -/
theorem pair_run (s : Statement) (he : scope.escape ∈ escapeChoices)
    (hk : BareKey scope.escape key) (h : scope.Shows .everywhere name value) :
    (pair s (key ++ '=' :: Reference.bare name) (scope.context aliases)).result =
      .ok ⟨key, Word.value scope.escape value, Word.quoting scope.escape value, true⟩ := by
  have hescape : (scope.context aliases).escape = scope.escape := rfl
  rw [pair, bind_of_ok (context_run _), hescape, hk.cut]
  simp only [hk.value_eq, hk.not_isEmpty]
  rw [if_neg (by simp), bind_of_ok (word_run _ _ _), filling_bare he h]
  rfl

/-- `key=$NAME` is one word. -/
theorem rawWords_of_pair (he : scope.escape ∈ escapeChoices) (hk : BareKey scope.escape key)
    (hn : Reference.isName name = true) :
    rawWords (key ++ '=' :: Reference.bare name) (scope.context aliases) =
      ⟨.ok [key ++ '=' :: Reference.bare name], []⟩ := by
  have hsplit := rawWords_run (key ++ '=' :: Reference.bare name) (scope.context aliases)
  have hescape : (scope.context aliases).escape = scope.escape := rfl
  rw [hescape, (bare_pair he hk hn).whole.split] at hsplit
  exact hsplit

/-- A statement whose arguments are the one pair `key=$NAME`. -/
theorem pairs_run {s : Statement} (he : scope.escape ∈ escapeChoices)
    (hk : BareKey scope.escape key) (h : scope.Shows .everywhere name value)
    (hs : s.text = key ++ '=' :: Reference.bare name) :
    (pairs s (scope.context aliases)).result =
      .ok [⟨key, Word.value scope.escape value, Word.quoting scope.escape value, true⟩] := by
  have hescape : (scope.context aliases).escape = scope.escape := rfl
  have hpair : (pair s (key ++ '=' :: Reference.bare name) (scope.context aliases)).result =
      .ok ⟨key, Word.value scope.escape value, Word.quoting scope.escape value, true⟩ :=
    pair_run s he hk h
  rw [pairs, hs, bind_of_ok (rawWords_of_pair he hk h.isName)]
  simp only
  rw [bind_of_ok (context_run _), hescape, hk.cut]
  simp only [Option.isNone_some, Bool.false_eq_true, if_false, List.mapM'_cons, List.mapM'_nil]
  rw [bind_run, andThen, hpair]
  rfl

/-- A statement whose arguments are the one declaration `key=$NAME`. -/
theorem arg_run {s : Statement} (he : scope.escape ∈ escapeChoices)
    (hk : BareKey scope.escape key) (h : scope.Shows .everywhere name value)
    (hs : s.text = key ++ '=' :: Reference.bare name) :
    (arg s (scope.context aliases)).result =
      .ok (.arg
        [⟨key, some (Word.value scope.escape value), Word.quoting scope.escape value⟩]) := by
  have hescape : (scope.context aliases).escape = scope.escape := rfl
  have hdecl : (declaration s (key ++ '=' :: Reference.bare name) (scope.context aliases)).result =
      .ok ⟨key, some (Word.value scope.escape value), Word.quoting scope.escape value⟩ := by
    rw [declaration, bind_of_ok (context_run _), hescape, hk.cut]
    simp only [hk.not_isEmpty]
    rw [bind_of_ok (word_run _ _ _), filling_bare he h]
    rfl
  rw [arg, hs, bind_of_ok (rawWords_of_pair he hk h.isName)]
  simp only [List.mapM'_cons, List.mapM'_nil]
  rw [bind_run, andThen, bind_run, andThen, hdecl]
  rfl

/-! ## Paths -/

theorem flagValues_of_nil {s : Statement} (hs : s.flags = []) (flag : String) (cx : Context) :
    flagValues s flag seen cx = ⟨.ok [], []⟩ := by
  rw [flagValues, hs]
  rfl

theorem flagValue_of_nil {s : Statement} (hs : s.flags = []) (flag : String) (cx : Context) :
    flagValue s flag seen cx = ⟨.ok none, []⟩ := by
  rw [flagValue, bind_of_ok (flagValues_of_nil hs flag cx)]
  rfl

theorem flagSwitch_of_nil {s : Statement} (hs : s.flags = []) (flag : String) (cx : Context) :
    flagSwitch s flag cx = ⟨.ok false, []⟩ := by
  rw [flagSwitch, Statement.flag?, hs]
  rfl

theorem checkFlags_of_nil {s : Statement} (hs : s.flags = []) (allowed repeatable : List String)
    (cx : Context) : checkFlags s allowed repeatable cx = ⟨.ok (), []⟩ := by
  rw [checkFlags, hs]
  rfl

/-- The paths of a statement that is nothing but references. -/
theorem words_of_references (he : scope.escape ∈ escapeChoices) {named : List (Text × Text)}
    (h : ∀ p ∈ named, scope.Shows .everywhere p.1 p.2) :
    (words (Text.join [' '] (named.map fun p => Reference.bare p.1))
        (scope.context aliases)).result =
      .ok (named.map fun p => Word.value scope.escape p.2) := by
  have hescape : (scope.context aliases).escape = scope.escape := rfl
  have hwhole : ∀ w ∈ named.map fun p => Reference.bare p.1, Word.Whole scope.escape w :=
    fun w hw => (bare_references he h w hw).whole
  rw [words_run, hescape, Word.split_join (escape_ne_of_choice he).2.2.1 hwhole,
    List.map_map]
  apply congrArg Except.ok
  apply List.map_congr_left
  intro p hp
  exact congrArg (Word.value scope.escape) (filling_bare he (h p hp))

/-- What COPY and ADD have in common, for a statement that is nothing but references. -/
theorem transfer_run {s : Statement} (he : scope.escape ∈ escapeChoices)
    {named : List (Text × Text)} (h : ∀ p ∈ named, scope.Shows .everywhere p.1 p.2)
    (hlen : 2 ≤ named.length)
    (hs : s.args = .text (Text.join [' '] (named.map fun p => Reference.bare p.1))) :
    ∃ files : Transfer, files.paths = named.map (fun p => Word.value scope.escape p.2) ∧
      (transfer s none none false [] (scope.context aliases)).result = .ok files := by
  have hwords : (words (Text.join [' '] (named.map fun p => Reference.bare p.1))
      (scope.context aliases)).result = .ok (named.map fun p => Word.value scope.escape p.2) :=
    words_of_references he h
  obtain ⟨last, hlast⟩ : ∃ last,
      (named.map fun p => Word.value scope.escape p.2).getLast? = some last := by
    rw [← Option.isSome_iff_exists, List.getLast?_isSome]
    intro hnil
    rw [List.map_eq_nil_iff] at hnil
    simp [hnil] at hlen
  refine ⟨⟨(named.map fun p => Word.value scope.escape p.2).dropLast, last, none, none, false, [],
    s.heredocs, false⟩, ?_, ?_⟩
  · exact List.dropLast_append_getLast? last hlast
  · have hpaths : (paths s (scope.context aliases)).result =
        .ok (named.map (fun p => Word.value scope.escape p.2), false) := by
      rw [paths, hs]
      simp only
      rw [bind_run, andThen, hwords]
      rfl
    rw [transfer, bind_run, andThen, hpaths]
    simp only [hlast, List.length_map]
    rw [if_neg (by omega)]
    rfl

/-- Reads a COPY without flags. -/
theorem copy_run {s : Statement} {cx : Context} {files : Transfer} (hs : s.flags = [])
    (h : (transfer s none none false [] cx).result = .ok files) :
    (copy s cx).result = .ok (.copy files none false) := by
  simp [copy, bind_run, andThen, checkFlags_of_nil hs, flagValue_of_nil hs, flagValues_of_nil hs,
    flagSwitch_of_nil hs, h, Except.map]

/-- Reads an ADD without flags. -/
theorem add_run {s : Statement} {cx : Context} {files : Transfer} (hs : s.flags = [])
    (h : (transfer s none none false [] cx).result = .ok files) :
    (add s cx).result = .ok (.add files none false) := by
  simp [add, bind_run, andThen, checkFlags_of_nil hs, flagValue_of_nil hs, flagValues_of_nil hs,
    flagSwitch_of_nil hs, h, Except.map]

/-! ## Lines -/

section Lines

variable {l : LogicalLine} {k : Keyword}

/-- The statement of a line that is a keyword and a pair `key=$NAME`. -/
theorem statement_of_pair (he : scope.escape ∈ escapeChoices) (hk : BareKey scope.escape key)
    (hn : Reference.isName name = true) (hf : k.acceptsFlags = false)
    (hx : k.acceptsExecForm = false)
    (hl : l.text = k.text ++ ' ' :: (key ++ '=' :: Reference.bare name)) :
    Statement.ofLine l =
      .ok (.ofWords k (key ++ '=' :: Reference.bare name) l.lines l.heredocs) := by
  have hbare := bare_pair he hk hn
  rw [Statement.ofLine, hl]
  exact Statement.read_of_plain hbare.trimmed (fun h => absurd h (by simp [hf]))
    (fun h => absurd h (by simp [hx]))

/-- A result made of the value of a word is that of the value itself exactly if unquoting keeps the
value. -/
theorem keeps_iff_of_run {escape : Char} {r : Except Failure Instruction}
    {f : Text → Quoting → Instruction} (hf : ∀ {t u q}, f t q = f u q → t = u)
    (hr : r = .ok (f (Word.value escape value) (Word.quoting escape value))) :
    r = .ok (f value (Word.quoting escape value)) ↔ Word.Plain escape value := by
  rw [hr, ← Word.value_eq_self_iff]
  constructor
  · intro h
    exact hf (Except.ok.inj h)
  · intro h
    rw [h]

/-- What ENV binds. -/
theorem env_keeps_iff (he : scope.escape ∈ escapeChoices) (hk : BareKey scope.escape key)
    (h : scope.Shows .everywhere name value)
    (hl : l.text = Keyword.env.text ++ ' ' :: (key ++ '=' :: Reference.bare name)) :
    (line l (scope.context aliases)).result =
        .ok (.step (.env [⟨key, value, Word.quoting scope.escape value, true⟩])) ↔
      Word.Plain scope.escape value := by
  refine keeps_iff_of_run (f := fun t q => .step (.env [⟨key, t, q, true⟩])) (by simp) ?_
  rw [line_of_read (statement_of_pair he hk h.isName rfl rfl hl)]
  show ((Instruction.step <$> Step.env <$> pairs _) (scope.context aliases)).result = _
  rw [map_run, map_run, pairs_run he hk h rfl]
  rfl

/-- What LABEL sets. -/
theorem label_keeps_iff (he : scope.escape ∈ escapeChoices) (hk : BareKey scope.escape key)
    (h : scope.Shows .everywhere name value)
    (hl : l.text = Keyword.label.text ++ ' ' :: (key ++ '=' :: Reference.bare name)) :
    (line l (scope.context aliases)).result =
        .ok (.step (.label [⟨key, value, Word.quoting scope.escape value, true⟩])) ↔
      Word.Plain scope.escape value := by
  refine keeps_iff_of_run (f := fun t q => .step (.label [⟨key, t, q, true⟩])) (by simp) ?_
  rw [line_of_read (statement_of_pair he hk h.isName rfl rfl hl)]
  show ((Instruction.step <$> Step.label <$> pairs _) (scope.context aliases)).result = _
  rw [map_run, map_run, pairs_run he hk h rfl]
  rfl

/-- What ARG declares. -/
theorem arg_keeps_iff (he : scope.escape ∈ escapeChoices) (hk : BareKey scope.escape key)
    (h : scope.Shows .everywhere name value)
    (hl : l.text = Keyword.arg.text ++ ' ' :: (key ++ '=' :: Reference.bare name)) :
    (line l (scope.context aliases)).result =
        .ok (.step (.arg [⟨key, some value, Word.quoting scope.escape value⟩])) ↔
      Word.Plain scope.escape value := by
  refine keeps_iff_of_run (f := fun t q => .step (.arg [⟨key, some t, q⟩])) (by simp) ?_
  rw [line_of_read (statement_of_pair he hk h.isName rfl rfl hl)]
  show ((Instruction.step <$> arg _) (scope.context aliases)).result = _
  rw [map_run, arg_run he hk h rfl]
  rfl

/-- The statement of a line that is a keyword and references. -/
theorem statement_of_references (he : scope.escape ∈ escapeChoices) {named : List (Text × Text)}
    (h : ∀ p ∈ named, scope.Shows .everywhere p.1 p.2) (hlen : 2 ≤ named.length)
    (hl : l.text = k.text ++ ' ' :: Text.join [' '] (named.map fun p => Reference.bare p.1)) :
    Statement.ofLine l =
      .ok (.ofWords k (Text.join [' '] (named.map fun p => Reference.bare p.1)) l.lines
        l.heredocs) := by
  have hbare := bare_references he h
  have htrim := Word.trimmed_join fun w hw => ⟨(hbare w hw).1, (hbare w hw).trimmed⟩
  obtain ⟨p, ps, rfl⟩ : ∃ p ps, named = p :: ps := by
    apply List.exists_cons_of_ne_nil
    rintro rfl
    simp at hlen
  have hne : Reference.bare p.1 ≠ [] := by simp [Reference.bare]
  have hhead := Word.head?_join hne (ps.map fun p => Reference.bare p.1)
  rw [Statement.ofLine, hl]
  apply Statement.read_of_plain
  · exact htrim
  · intro _ hdash
    rw [List.map_cons, hhead] at hdash
    simp [Reference.bare] at hdash
  · intro _ hbracket
    rw [List.map_cons, hhead] at hbracket
    simp [Reference.bare] at hbracket

/-- Values that unquoting keeps, one by one. -/
theorem map_value_eq_iff {escape : Char} {named : List (Text × Text)} :
    named.map (fun p => Word.value escape p.2) = named.map Prod.snd ↔
      ∀ p ∈ named, Word.Plain escape p.2 := by
  rw [List.map_inj_left]
  constructor
  · intro h p hp
    exact Word.value_eq_self_iff.mp (h p hp)
  · intro h p hp
    exact Word.value_eq_self_iff.mpr (h p hp)

/-- A result made of the values of several words. -/
theorem paths_keep_iff_of_run {escape : Char} {r : Except Failure Instruction}
    {named : List (Text × Text)} {files : Transfer} {f : Transfer → Instruction}
    (hf : ∀ {a b}, f a = f b → a = b) (hr : r = .ok (f files))
    (hp : files.paths = named.map fun p => Word.value escape p.2) :
    (∃ files : Transfer, files.paths = named.map Prod.snd ∧ r = .ok (f files)) ↔
      ∀ p ∈ named, Word.Plain escape p.2 := by
  rw [← map_value_eq_iff, ← hp]
  constructor
  · rintro ⟨files', hfiles, hr'⟩
    rw [hr] at hr'
    rw [hf (Except.ok.inj hr'), hfiles]
  · intro h
    exact ⟨files, h, hr⟩

/-- What COPY takes files from and to. -/
theorem copy_keeps_iff (he : scope.escape ∈ escapeChoices) {named : List (Text × Text)}
    (h : ∀ p ∈ named, scope.Shows .everywhere p.1 p.2) (hlen : 2 ≤ named.length)
    (hl : l.text =
      Keyword.copy.text ++ ' ' :: Text.join [' '] (named.map fun p => Reference.bare p.1)) :
    (∃ files : Transfer, files.paths = named.map Prod.snd ∧
        (line l (scope.context aliases)).result = .ok (.step (.copy files none false))) ↔
      ∀ p ∈ named, Word.Plain scope.escape p.2 := by
  have hs := statement_of_references he h hlen hl
  obtain ⟨files, hpaths, hrun⟩ : ∃ files : Transfer,
      files.paths = named.map (fun p => Word.value scope.escape p.2) ∧
        (transfer (.ofWords .copy (Text.join [' '] (named.map fun p => Reference.bare p.1)) l.lines
          l.heredocs) none none false [] (scope.context aliases)).result = .ok files :=
    transfer_run he h hlen rfl
  refine paths_keep_iff_of_run (f := fun files => .step (.copy files none false)) (by simp) ?_
    hpaths
  rw [line_of_read hs]
  show ((Instruction.step <$> copy _) (scope.context aliases)).result = _
  rw [map_run, copy_run rfl hrun]
  rfl

/-- What ADD takes files from and to. -/
theorem add_keeps_iff (he : scope.escape ∈ escapeChoices) {named : List (Text × Text)}
    (h : ∀ p ∈ named, scope.Shows .everywhere p.1 p.2) (hlen : 2 ≤ named.length)
    (hl : l.text =
      Keyword.add.text ++ ' ' :: Text.join [' '] (named.map fun p => Reference.bare p.1)) :
    (∃ files : Transfer, files.paths = named.map Prod.snd ∧
        (line l (scope.context aliases)).result = .ok (.step (.add files none false))) ↔
      ∀ p ∈ named, Word.Plain scope.escape p.2 := by
  have hs := statement_of_references he h hlen hl
  obtain ⟨files, hpaths, hrun⟩ : ∃ files : Transfer,
      files.paths = named.map (fun p => Word.value scope.escape p.2) ∧
        (transfer (.ofWords .add (Text.join [' '] (named.map fun p => Reference.bare p.1)) l.lines
          l.heredocs) none none false [] (scope.context aliases)).result = .ok files :=
    transfer_run he h hlen rfl
  refine paths_keep_iff_of_run (f := fun files => .step (.add files none false)) (by simp) ?_
    hpaths
  rw [line_of_read hs]
  show ((Instruction.step <$> add _) (scope.context aliases)).result = _
  rw [map_run, add_run rfl hrun]
  rfl

end Lines

/-- **Where a value survives being filled in.**  With either escape character and any variables:

* a reference as a word is the value that it shows exactly if the value is plain, and between double
  quotes exactly if it is plain in quotes;
* ENV, LABEL and ARG give a key that value exactly if it is plain;
* COPY and ADD take the values of several references for paths exactly if all of them are plain. -/
theorem keeps_iff (scope : Scope) (aliases : Aliases) (he : scope.escape ∈ escapeChoices) :
    (∀ seen name value, scope.Shows seen name value →
      ((wordValue seen (Reference.bare name) (scope.context aliases)).result = .ok value ↔
          Word.Plain scope.escape value) ∧
        ((wordValue seen (Reference.braced name) (scope.context aliases)).result = .ok value ↔
          Word.Plain scope.escape value) ∧
        ((wordValue seen ('"' :: Reference.bare name ++ ['"']) (scope.context aliases)).result =
            .ok value ↔ Word.PlainInQuotes scope.escape value)) ∧
    (∀ key name value, BareKey scope.escape key → scope.Shows .everywhere name value →
      (∀ l : LogicalLine,
        l.text = Keyword.env.text ++ ' ' :: (key ++ '=' :: Reference.bare name) →
        ((line l (scope.context aliases)).result =
            .ok (.step (.env [⟨key, value, Word.quoting scope.escape value, true⟩])) ↔
          Word.Plain scope.escape value)) ∧
      (∀ l : LogicalLine,
        l.text = Keyword.label.text ++ ' ' :: (key ++ '=' :: Reference.bare name) →
        ((line l (scope.context aliases)).result =
            .ok (.step (.label [⟨key, value, Word.quoting scope.escape value, true⟩])) ↔
          Word.Plain scope.escape value)) ∧
      (∀ l : LogicalLine,
        l.text = Keyword.arg.text ++ ' ' :: (key ++ '=' :: Reference.bare name) →
        ((line l (scope.context aliases)).result =
            .ok (.step (.arg [⟨key, some value, Word.quoting scope.escape value⟩])) ↔
          Word.Plain scope.escape value))) ∧
    (∀ named : List (Text × Text), 2 ≤ named.length →
      (∀ p ∈ named, scope.Shows .everywhere p.1 p.2) →
      (∀ l : LogicalLine,
        l.text =
          Keyword.copy.text ++ ' ' :: Text.join [' '] (named.map fun p => Reference.bare p.1) →
        ((∃ files : Transfer, files.paths = named.map Prod.snd ∧
            (line l (scope.context aliases)).result = .ok (.step (.copy files none false))) ↔
          ∀ p ∈ named, Word.Plain scope.escape p.2)) ∧
      (∀ l : LogicalLine,
        l.text =
          Keyword.add.text ++ ' ' :: Text.join [' '] (named.map fun p => Reference.bare p.1) →
        ((∃ files : Transfer, files.paths = named.map Prod.snd ∧
            (line l (scope.context aliases)).result = .ok (.step (.add files none false))) ↔
          ∀ p ∈ named, Word.Plain scope.escape p.2))) := by
  refine ⟨?_, ?_, ?_⟩
  · intro seen name value h
    exact word_keeps_iff he h
  · intro key name value hk h
    exact ⟨fun l hl => env_keeps_iff he hk h hl, fun l hl => label_keeps_iff he hk h hl,
      fun l hl => arg_keeps_iff he hk h hl⟩
  · intro named hlen h
    exact ⟨fun l hl => copy_keeps_iff he h hlen hl, fun l hl => add_keeps_iff he h hlen hl⟩

/-- Variables of which one has a quote in its value and the other a blank. -/
def quoteAndBlank : Scope :=
  { escape := defaultEscape
    stages := .writing []
      [⟨"N".toList, some "a\"b".toList, .env, 1, .stage 0⟩,
        ⟨"M".toList, some "x y".toList, .env, 2, .stage 0⟩] }

/-- A quote in a value is lost; a blank is not. -/
theorem keeps_iff_quoteAndBlank :
    (line ⟨.single 4, [], "ENV K=$N".toList, []⟩ (quoteAndBlank.context [none])).result ≠
        .ok (.step (.env [⟨"K".toList, "a\"b".toList, .unquoted, true⟩])) ∧
      (line ⟨.single 4, [], "ENV K=$M".toList, []⟩ (quoteAndBlank.context [none])).result =
        .ok (.step (.env [⟨"K".toList, "x y".toList, .unquoted, true⟩])) := by
  have hkey : BareKey quoteAndBlank.escape "K".toList := by
    refine ⟨⟨by decide, ?_⟩, by decide⟩
    intro c hc
    rw [List.mem_singleton.mp hc]
    exact ⟨by decide, by decide, by decide⟩
  have hpairs := (keeps_iff quoteAndBlank [none] (by decide)).2.1
  have hN := (hpairs _ "N".toList "a\"b".toList hkey ⟨by decide, by decide⟩).1
  have hM := (hpairs _ "M".toList "x y".toList hkey ⟨by decide, by decide⟩).1
  refine ⟨fun h => ?_, ?_⟩
  · have hplain : Word.Plain '\\' "a\"b".toList :=
      (hN ⟨.single 4, [], "ENV K=$N".toList, []⟩ (by decide)).mp h
    exact absurd (hplain.1 '"' (by decide)) (by decide)
  · apply (hM ⟨.single 4, [], "ENV K=$M".toList, []⟩ (by decide)).mpr
    have hquotes : "x y".toList.all (fun c => Quote.ofChar? c == none) = true := by decide
    refine ⟨?_, by decide⟩
    intro c hc
    exact beq_iff_eq.mp (List.all_eq_true.mp hquotes c hc)

end Grammar

end Containerfile
