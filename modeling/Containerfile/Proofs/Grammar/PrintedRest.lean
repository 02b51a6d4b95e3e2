import Containerfile.Proofs.Grammar.PrintedPairs

/-! # Pairs printed without equals signs

A pair that takes the rest of the line is printed as its key, a blank and its value.  Two things go
wrong with the rest of a line.  It is trimmed, and a value without quotes may have blanks at its
ends or be nothing at all.  And it begins after the first blank, which may be one of the key
(`Grammar.takesRest_firstWord`).

Main statements: `KeyValue.RestLegible.reads`, `KeyValue.restLegible_of_value`,
`Grammar.pairs_of_stands`, `Grammar.stands_of_pairs`. -/
namespace Containerfile

variable {s : Statement} {cx : Context} {p p' : KeyValue}

namespace KeyValue

/-- The value of a pair without equals sign as it is printed. -/
def printedRest (p : KeyValue) : Text :=
  if p.quoting = .unquoted then escapeValue (fun c => c == '"' || c == '\'') p.value
  else quoteValue p.quoting p.value

/-- A value that is read from the rest of the line behind its key. -/
def RestLegible (p : KeyValue) : Prop :=
  if p.key.any isBlank then
    -- nothing is printed for the value, and the rest of the key is read as the value
    p.quoting = .unquoted ∧ (∀ c ∈ p.value, isBlank c = true) ∧
      Word.value defaultEscape (Text.afterBlank (quoteValue .unquoted p.key)) = p.value
  else p.quoting = .unquoted → p.value ≠ [] ∧ Text.Trimmed p.value

/-- What stands behind the key. -/
def printedBehind (p : KeyValue) : Text := (Text.firstWord p.render).2

theorem render_of_not_hasEquals (h : p.hasEquals = false) :
    p.render = quoteValue .unquoted p.key ++ ' ' :: p.printedRest := by
  rw [render, h, if_neg Bool.false_ne_true, printedRest]
  split <;> rfl

theorem trim_printedRest_of_unquoted (h : p.quoting = .unquoted) :
    p.printedRest.trim = escapeValue (fun c => c == '"' || c == '\'') p.value.trim := by
  rw [printedRest, if_pos h, escapeValue_eq, escapeValue_eq]
  refine trim_backslashed (fun c hc => ?_) p.value
  by_contra hp
  simp only [Bool.not_eq_false, Bool.or_eq_true, beq_iff_eq] at hp
  rcases hp with (rfl | rfl) | (rfl | rfl) <;> exact absurd hc (by decide)

theorem printedRest_of_quoted (h : p.quoting ≠ .unquoted) :
    p.printedRest = quoteValue p.quoting p.value ∧ Text.trim p.printedRest = p.printedRest ∧
      p.printedRest ≠ [] := by
  rw [printedRest, if_neg h]
  refine ⟨rfl, Text.trim_eq_self (trimmed_quoteValue _ _), ?_⟩
  cases hq : p.quoting with
  | unquoted => exact absurd hq h
  | single =>
    rw [quoteValue]
    split <;> simp [doubleQuoted]
  | double => simp [quoteValue, doubleQuoted]

theorem countP_printedRest (p : KeyValue) :
    p.printedRest.countP isBlank = p.value.countP isBlank := by
  rw [printedRest]
  split
  · rw [escapeValue_eq, countP_backslashed]
  · exact countP_quoteValue _ _

section Key

variable (h : p.hasEquals = false) (hkey : p.key ≠ [])
include h hkey

theorem trimStart_render :
    p.render.trimStart = quoteValue .unquoted p.key ++ ' ' :: p.printedRest := by
  rw [render_of_not_hasEquals h]
  obtain ⟨c, w, hw⟩ := List.exists_cons_of_ne_nil (quoteValue_ne_nil hkey .unquoted)
  refine Text.trimStart_eq_self fun d hd => (trimmed_quoteValue .unquoted p.key).1 d ?_
  rw [hw] at hd ⊢
  exact hd

theorem split_trim_render : ∃ ws,
    Word.split defaultEscape p.render.trim = quoteValue .unquoted p.key :: ws := by
  have hwhole := whole_quoteValue (quoteValue_ne_nil hkey .unquoted)
  have hend : (quoteValue .unquoted p.key).trimEnd = quoteValue .unquoted p.key :=
    Text.trimEnd_eq_self (trimmed_quoteValue _ _).2
  obtain ⟨z, htrim, -, ⟨-, rfl⟩ | ⟨gap, hgap, hblank, rfl, -⟩⟩ :=
    Text.exists_trim_eq (trimStart_render h hkey) (by rintro c ⟨⟩; decide)
  · rw [htrim, hend, List.append_nil]
    exact ⟨[], hwhole.split⟩
  · obtain ⟨c, gap, rfl⟩ := List.exists_cons_of_ne_nil hgap
    have hc := hblank c List.mem_cons_self
    have hne : c ≠ defaultEscape := by
      rintro rfl
      exact absurd hc (by decide)
    rw [htrim, hend, List.cons_append]
    exact ⟨_, hwhole.split_append hc hne⟩

/-- Where no blank is in the key, the value as it is printed stands behind it. -/
theorem printedBehind_of_blankless (hb : p.key.any isBlank = false) :
    p.printedBehind = p.printedRest.trim := by
  have hend : (quoteValue .unquoted p.key).trimEnd = quoteValue .unquoted p.key :=
    Text.trimEnd_eq_self (trimmed_quoteValue _ _).2
  rw [← any_isBlank_quoteValue .unquoted, List.any_eq_false] at hb
  have hword := Text.firstWord_of_blankless (trimStart_render h hkey) (by rintro c ⟨⟩; decide)
    (by rw [hend]; simpa using hb)
  rw [printedBehind, hword, Text.trim_cons_of_isBlank (by decide)]

/-- Where a blank is in the key, the rest of the key stands there too. -/
theorem printedBehind_of_blank (hb : p.key.any isBlank = true) :
    ∃ z, p.printedBehind = Text.afterBlank (quoteValue .unquoted p.key) ++ z ∧
      Text.afterBlank (quoteValue .unquoted p.key) ≠ [] ∧
      Text.trimEnd (' ' :: p.printedRest) <:+ z ∧
      ((p.printedRest.trim = [] ∧ z = []) ∨
        ∃ gap, z = gap ++ p.printedRest.trim ∧ p.printedRest.trim ≠ []) := by
  have hend : (quoteValue .unquoted p.key).trimEnd = quoteValue .unquoted p.key :=
    Text.trimEnd_eq_self (trimmed_quoteValue _ _).2
  rw [← any_isBlank_quoteValue .unquoted, List.any_eq_true] at hb
  obtain ⟨z, hword, hne, hsuffix, hz⟩ :=
    Text.firstWord_of_blank (trimStart_render h hkey) (by rintro c ⟨⟩; decide) (by rwa [hend])
  rw [hend] at hword hne
  rw [Text.trim_cons_of_isBlank (by decide)] at hz
  exact ⟨z, hword, hne, hsuffix, hz.imp_right fun ⟨gap, _, _, hgap⟩ => ⟨gap, hgap⟩⟩

end Key

/-! ## Reading what stands behind the key -/

theorem escapeValue_eq_nil_iff {special : Char → Bool} {t : Text} :
    escapeValue special t = [] ↔ t = [] := by
  rw [← List.getLast?_eq_none_iff, escapeValue_eq, getLast?_backslashed, List.getLast?_eq_none_iff]

/-- Behind a key with a blank stands more than the value, if the value ends with a visible
character. -/
theorem value_printedBehind_ne (h : p.hasEquals = false) (hkey : p.key ≠ [])
    (hb : p.key.any isBlank = true) (hne : p.printedRest ≠ [])
    (hlast : ∀ c ∈ p.printedRest.getLast?, isBlank c = false) :
    Word.value defaultEscape p.printedBehind ≠ p.value := by
  obtain ⟨z, hbehind, -, hsuffix, -⟩ := printedBehind_of_blank h hkey hb
  have hend : Text.trimEnd (' ' :: p.printedRest) = ' ' :: p.printedRest := by
    refine Text.trimEnd_eq_self fun c hc => hlast c ?_
    rwa [List.getLast?_cons_of_ne_nil hne] at hc
  rw [hend] at hsuffix
  -- printing adds no blanks to the value, and here is one more
  have hescape : isBlank defaultEscape = false := by decide
  have hspace : isBlank ' ' = true := by decide
  have hcount := Word.countP_valueFrom hescape none p.printedBehind
  have hsub : List.countP isBlank (' ' :: p.printedRest) ≤ z.countP isBlank :=
    hsuffix.sublist.countP_le
  rw [List.countP_cons_of_pos hspace, countP_printedRest] at hsub
  rw [hbehind, List.countP_append] at hcount
  intro heq
  rw [← heq, Word.value, hbehind, hcount] at hsub
  omega

/-- A value whose printed text is nothing but what is left of a key. -/
theorem restLegible_iff_of_blank (hb : p.key.any isBlank = true) :
    p.RestLegible ↔ p.quoting = .unquoted ∧ p.printedRest.trim = [] ∧
      Word.value defaultEscape (Text.afterBlank (quoteValue .unquoted p.key)) = p.value := by
  rw [RestLegible, if_pos hb]
  refine and_congr_right fun hq => and_congr_left fun _ => ?_
  rw [trim_printedRest_of_unquoted hq, escapeValue_eq_nil_iff, Text.trim_eq_nil_iff]

/-- What stands behind the key is read as the value, whatever variables there are. -/
def RestReads (p : KeyValue) : Prop :=
  p.printedBehind ≠ [] ∧ ∀ cx : Context, cx.Canonical →
    ∃ q, (Grammar.word .everywhere p.printedBehind cx).result = .ok (p.value, q)

section Rest

variable (h : p.hasEquals = false) (hkey : p.key ≠ [])
include h hkey

/-- **Behind a key without blanks** a value is read back if it is in quotes or nothing of it is
trimmed. -/
theorem RestLegible.reads_of_blankless (hb : p.key.any isBlank = false) (hlegible : p.RestLegible) :
    p.RestReads := by
  rw [RestLegible, hb, if_neg Bool.false_ne_true] at hlegible
  rw [RestReads, printedBehind_of_blankless h hkey hb]
  by_cases hq : p.quoting = .unquoted
  · obtain ⟨hne, htrimmed⟩ := hlegible hq
    rw [trim_printedRest_of_unquoted hq, Text.trim_eq_self htrimmed]
    exact ⟨mt escapeValue_eq_nil_iff.mp hne, fun cx hcx => ⟨_, congrArg Outcome.result
      (Grammar.word_spells (spells_escaped p.value) hcx.escape hcx.scope .everywhere)⟩⟩
  · obtain ⟨hprinted, htrim, hne⟩ := printedRest_of_quoted hq
    rw [htrim]
    refine ⟨hne, fun cx hcx => ?_⟩
    rw [hprinted]
    exact ⟨_, congrArg Outcome.result (Grammar.word_quoted hcx _ _)⟩

/-- **And only then.** -/
theorem restLegible_of_blankless (hb : p.key.any isBlank = false) (hne : p.printedBehind ≠ [])
    (hvalue : Word.value defaultEscape p.printedBehind = p.value) : p.RestLegible := by
  rw [RestLegible, hb, if_neg Bool.false_ne_true]
  intro hq
  rw [printedBehind_of_blankless h hkey hb, trim_printedRest_of_unquoted hq] at hne hvalue
  have htrim : p.value.trim = p.value :=
    (congrArg Prod.fst (spells_escaped p.value.trim).unfilled).symm.trans hvalue
  rw [htrim] at hne
  refine ⟨mt escapeValue_eq_nil_iff.mpr hne, ?_⟩
  rw [← htrim]
  exact Text.trimmed_trim _

/-- **Behind a key with a blank** a value is read back if it is what is left of the key. -/
theorem RestLegible.reads_of_blank (hb : p.key.any isBlank = true) (hlegible : p.RestLegible) :
    p.RestReads := by
  obtain ⟨hq, hnil, hvalue⟩ := (restLegible_iff_of_blank hb).mp hlegible
  obtain ⟨z, hbehind, hne, -, hz⟩ := printedBehind_of_blank h hkey hb
  obtain ⟨-, rfl⟩ := hz.resolve_right fun ⟨_, _, hnot⟩ => hnot hnil
  rw [List.append_nil] at hbehind
  rw [RestReads, hbehind]
  refine ⟨hne, fun cx hcx => ⟨Word.quoting defaultEscape p.printedBehind, ?_⟩⟩
  -- a dollar sign of the key would be one of the value, which is blank
  have hblank : ∀ c ∈ p.value, isBlank c = true := by
    rwa [trim_printedRest_of_unquoted hq, escapeValue_eq_nil_iff, Text.trim_eq_nil_iff] at hnil
  rw [← hvalue] at hblank
  have hdollar :=
    Word.not_mem_of_isBlank_value (c := '$') hblank (by decide) (by decide) (by decide)
  rw [Grammar.word_run, Grammar.filling_of_dollarless hdollar, hcx.escape, ← hbehind,
    ← hvalue, ← hbehind]
  rfl

omit h hkey in
/-- A value that is read from a text at whose end it is printed ends with a visible character. -/
theorem isBlank_getLast?_printedRest (hvisible : p.printedRest.trim ≠ []) {front : Text}
    (hvalue : Word.value defaultEscape (front ++ p.printedRest.trim) = p.value) :
    ∀ c ∈ p.printedRest.getLast?, isBlank c = false := by
  by_cases hq : p.quoting = .unquoted
  · rw [trim_printedRest_of_unquoted hq] at hvisible hvalue
    obtain ⟨w, d, hw, hd⟩ := Word.valueFrom_backslashed_concat
      (fun _ => ofChar?_of_escapeValue_neg) (Text.trimmed_trim p.value).2
      (mt escapeValue_eq_nil_iff.mpr hvisible) none front
    rw [Word.value, escapeValue_eq, defaultEscape, hw] at hvalue
    rw [printedRest, if_pos hq, escapeValue_eq, getLast?_backslashed, ← hvalue,
      List.getLast?_concat]
    rintro c ⟨⟩
    exact hd
  · rw [(printedRest_of_quoted hq).1]
    exact (trimmed_quoteValue _ _).2

/-- **And only then.** -/
theorem restLegible_of_blank (hb : p.key.any isBlank = true)
    (hvalue : Word.value defaultEscape p.printedBehind = p.value) : p.RestLegible := by
  obtain ⟨z, hbehind, -, -, ⟨hnil, rfl⟩ | ⟨gap, rfl, hvisible⟩⟩ := printedBehind_of_blank h hkey hb
  · rw [List.append_nil] at hbehind
    rw [restLegible_iff_of_blank hb]
    by_cases hq : p.quoting = .unquoted
    · exact ⟨hq, hnil, hbehind ▸ hvalue⟩
    · obtain ⟨-, htrim, hrest⟩ := printedRest_of_quoted hq
      exact absurd (htrim.symm.trans hnil) hrest
  · -- the value is printed, so more than the value stands behind the key
    have hrest : p.printedRest ≠ [] := by
      intro hnil
      rw [hnil] at hvisible
      exact hvisible rfl
    refine absurd hvalue (value_printedBehind_ne h hkey hb hrest ?_)
    rw [hbehind, ← List.append_assoc] at hvalue
    exact isBlank_getLast?_printedRest hvisible hvalue

theorem RestLegible.reads (hlegible : p.RestLegible) : p.RestReads := by
  cases hb : p.key.any isBlank with
  | false => exact hlegible.reads_of_blankless h hkey hb
  | true => exact hlegible.reads_of_blank h hkey hb

theorem restLegible_of_value (hne : p.printedBehind ≠ [])
    (hvalue : Word.value defaultEscape p.printedBehind = p.value) : p.RestLegible := by
  cases hb : p.key.any isBlank with
  | false => exact restLegible_of_blankless h hkey hb hne hvalue
  | true => exact restLegible_of_blank h hkey hb hvalue

end Rest

/-- A pair without equals sign that is read back: it has a key, which is taken for one, and a
legible value. -/
def Stands (p : KeyValue) : Prop := p.key ≠ [] ∧ HidesEquals p.key ∧ p.RestLegible

end KeyValue

/-! ## Pairs -/

namespace Grammar

/-- The first word of a value that is printed bare is not empty: it begins with no quote. -/
theorem value_first_ne_nil_of_escaped {v k : Text} {ws : List Text} (hv : Text.Trimmed v)
    (hk : Word.split defaultEscape (escapeValue (fun c => c == '"' || c == '\'') v) = k :: ws) :
    Word.value defaultEscape k ≠ [] := by
  have htrimmed : Text.Trimmed (escapeValue (fun c => c == '"' || c == '\'') v) :=
    trimmed_backslashed hv
  obtain ⟨u, -, htext, hne, -, -, -⟩ := Word.of_split_cons hk
  rw [Text.trimStart_eq_self htrimmed.1] at htext
  obtain ⟨c, w, rfl⟩ := List.exists_cons_of_ne_nil hne
  exact Word.value_cons_ne_nil (ofChar?_of_head?_escapeValue (by rw [htext]; rfl)) w

/-- A value in quotes is one word, and something is behind it only if it has a blank. -/
theorem value_first_ne_nil_of_quoted {q : Quoting} {v k : Text} {ws : List Text}
    (hk : Word.split defaultEscape (quoteValue q v) = k :: ws)
    (hrest : (Text.firstWord (quoteValue q v)).2 ≠ []) : Word.value defaultEscape k ≠ [] := by
  have hne : quoteValue q v ≠ [] := by
    intro hnil
    rw [hnil] at hk
    cases hk
  rw [(whole_quoteValue hne).split] at hk
  cases hk
  rw [value_quoteValue]
  rintro rfl
  have hblankless : (quoteValue q []).any isBlank = false := any_isBlank_quoteValue q []
  rw [List.any_eq_false] at hblankless
  exact hrest (Text.firstWord_snd_of_blankless (trimmed_quoteValue q [])
    (by simpa using hblankless))

/-- Behind no key, the value is taken for the key. -/
theorem value_first_ne_nil (hkey : p.key = []) (h : p.hasEquals = false) {k : Text} {ws : List Text}
    (hk : Word.split defaultEscape p.render.trim = k :: ws)
    (hrest : (Text.firstWord p.render.trim).2 ≠ []) : Word.value defaultEscape k ≠ [] := by
  have hprinted : p.render.trim = p.printedRest.trim := by
    rw [KeyValue.render_of_not_hasEquals h, hkey]
    exact Text.trim_cons_of_isBlank (by decide)
  rw [hprinted] at hk hrest
  by_cases hq : p.quoting = .unquoted
  · rw [KeyValue.trim_printedRest_of_unquoted hq] at hk
    exact value_first_ne_nil_of_escaped (Text.trimmed_trim p.value) hk
  · obtain ⟨hvalue, htrim, -⟩ := KeyValue.printedRest_of_quoted hq
    rw [htrim, hvalue] at hk hrest
    exact value_first_ne_nil_of_quoted hk hrest

/-- **A printed pair without equals sign is read back** in every context if it stands there. -/
theorem pairs_of_stands (h : p.hasEquals = false) (hs : s.text = p.render.trim) (hcx : cx.Canonical)
    (hstands : p.Stands) : ∃ q, (pairs s cx).result = .ok [{ p with quoting := q }] := by
  obtain ⟨hkey, hhides, hlegible⟩ := hstands
  obtain ⟨ws, hsplit⟩ := KeyValue.split_trim_render h hkey
  obtain ⟨hne, hword⟩ := hlegible.reads h hkey
  obtain ⟨q, hq⟩ := hword cx hcx
  have hline : (restOfLine s (quoteValue .unquoted p.key) cx).result =
      .ok { p with quoting := q } := by
    rw [restOfLine_eq_ok_iff, hs, Text.firstWord_trim, hcx.escape, value_quoteValue]
    exact ⟨hne, hq, rfl, h⟩
  rw [← hs, ← hcx.escape] at hsplit
  refine ⟨q, ?_⟩
  rw [pairs_of_split hsplit, hcx.escape, cut?_quoteValue hhides, Option.isNone_none, if_pos rfl,
    hline]
  rfl

/-- **And only then** in the context without variables. -/
theorem stands_of_pairs (h : p.hasEquals = false) (hs : s.text = p.render.trim)
    (hread : (pairs s .bare).result = .ok [p']) (hkey' : p'.key = p.key)
    (hvalue' : p'.value = p.value) (hequals' : p'.hasEquals = false) : p.Stands := by
  obtain ⟨k, ws, hk, ⟨hcut, q, hpq, hline⟩ | ⟨-, hmap⟩⟩ := of_pairs hread
  · cases hpq
    obtain ⟨hne, hword, hfirst, -⟩ := restOfLine_eq_ok_iff.mp hline
    rw [hs] at hk hne hword
    have hkey : p.key ≠ [] := fun hnil =>
      value_first_ne_nil hnil h hk hne (hfirst.symm.trans (hkey'.trans hnil))
    obtain ⟨ws', hsplit⟩ := KeyValue.split_trim_render h hkey
    cases hsplit.symm.trans hk
    refine ⟨hkey, ?_, ?_⟩
    · by_contra hnot
      obtain ⟨name, raw, hsome, -⟩ := cut?_quoteValue_of_not hnot []
      rw [List.append_nil] at hsome
      cases hcut.symm.trans hsome
    · rw [Text.firstWord_trim] at hne hword
      rw [word_run] at hword
      exact KeyValue.restLegible_of_value h hkey hne
        ((congrArg Prod.fst (Except.ok.inj hword)).trans hvalue')
  · -- a word with an equals sign is read as a pair that has one
    have hequals := (yields_mapM' (fun w _ => yields_formed_pair w) _ hmap p' List.mem_cons_self).1
    rw [hequals] at hequals'
    cases hequals'

end Grammar

end Containerfile
