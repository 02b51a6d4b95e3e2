import Containerfile.Proofs.Grammar.Basic
import Containerfile.Proofs.Grammar.Shape
import Containerfile.Proofs.Text.Trim
import Containerfile.Proofs.Word.Split
import Containerfile.Proofs.Word.Unquote

/-! # Pairs that take the rest of the line

ENV and LABEL take a first word without `=` for a key and the rest of the line for its value.  Two
splitters are at work here.  The key is the first of the words that quotes and escape characters
hold together; the rest is what follows the first *blank* of the text.  The two agree where no blank
is inside the key.  Where one is, the rest begins inside the key, and a part of it is read twice:
`"a b" c` gives the key `a b` the value `b c`, and `"a b"` alone has a value too.

Main statement: `Grammar.takesRest_iff`. -/
namespace Containerfile

/-! ## The pair -/

/-- The pairs of a step that consists of pairs. -/
def Step.keyValues : Step → List KeyValue
  | env pairs | label pairs => pairs
  | _ => []

/-- The keywords whose steps consist of pairs, and how the steps are made of them. -/
inductive Step.OfPairs : Keyword → (List KeyValue → Step) → Prop where
  | env : OfPairs .env .env
  | label : OfPairs .label .label

namespace Step.OfPairs

variable {k : Keyword} {f : List KeyValue → Step}

theorem exists_of_keyword (h : k = .env ∨ k = .label) : ∃ f, OfPairs k f := by
  rcases h with rfl | rfl
  · exact ⟨_, .env⟩
  · exact ⟨_, .label⟩

theorem keyword_eq (hf : OfPairs k f) (ps : List KeyValue) : (f ps).keyword = k := by
  cases hf <;> rfl

theorem keyValues_eq (hf : OfPairs k f) (ps : List KeyValue) : (f ps).keyValues = ps := by
  cases hf <;> rfl

end Step.OfPairs

namespace Grammar

variable {s : Statement} {k r r' : Text} {ws : List Text} {cx : Context}

/-- An instruction has one pair without `=`, of the word `k` and the text `r`, and is refused if
there is no such text. -/
def TakesRest (s : Statement) (k r : Text) (cx : Context) : Prop :=
  if r = [] then
    ∃ fault, (instruction s cx).result = .error (.malformed s.keyword fault s.lines)
  else
    ∃ v q st, (word .everywhere r cx).result = .ok (v, q) ∧
      (instruction s cx).result = .ok (.step st) ∧ st.keyword = s.keyword ∧
      st.keyValues = [⟨Word.value cx.escape k, v, q, false⟩]

/-- **The first word decides** how pairs are read. -/
theorem pairs_of_split (hk : Word.split cx.escape s.text = k :: ws) :
    (pairs s cx).result =
      if (Word.cut? cx.escape '=' k).isNone then (restOfLine s k cx).result.map fun p => [p]
      else (((k :: ws).mapM' (pair s)) cx).result := by
  rw [pairs, bind_of_ok (rawWords_run s.text cx), hk, List.nil_append]
  dsimp only
  rw [bind_of_ok (context_run cx)]
  split
  · rw [← map_eq_pure_bind, map_run]
  · rfl

theorem restOfLine_eq_ok_iff {p : KeyValue} :
    (restOfLine s k cx).result = .ok p ↔
      (Text.firstWord s.text).2 ≠ [] ∧
        (word .everywhere (Text.firstWord s.text).2 cx).result = .ok (p.value, p.quoting) ∧
        p.key = Word.value cx.escape k ∧ p.hasEquals = false := by
  rw [restOfLine]
  by_cases hrest : (Text.firstWord s.text).2 = []
  · simp [hrest]
  · obtain ⟨key, value, quoting, hasEquals⟩ := p
    simp [hrest, bind_run, andThen, Except.map, Word.unquote]
    tauto

theorem instruction_of_pairs {f : List KeyValue → Step} (hf : Step.OfPairs s.keyword f)
    (cx : Context) :
    (instruction s cx).result = (pairs s cx).result.map fun ps => .step (f ps) := by
  have hread : instruction s = .step <$> f <$> pairs s := by
    generalize hs : s.keyword = k at hf
    cases hf <;> rw [instruction_eq_step (by rw [hs]; decide), step, hs]
  rw [hread, map_run, map_run]
  cases (pairs s cx).result <;> rfl

/-- **The rest begins after the first blank**, whatever the first word is. -/
theorem takesRest_firstWord (hs : s.keyword = .env ∨ s.keyword = .label)
    (hk : Word.split cx.escape s.text = k :: ws) (hm : Word.cut? cx.escape '=' k = none) :
    TakesRest s k (Text.firstWord s.text).2 cx := by
  obtain ⟨f, hf⟩ := Step.OfPairs.exists_of_keyword hs
  rw [TakesRest, instruction_of_pairs hf, pairs_of_split hk, hm, Option.isNone_none, if_pos rfl,
    restOfLine]
  by_cases hrest : (Text.firstWord s.text).2 = []
  · rw [if_pos hrest]
    exact ⟨.missingValue s.keyword k, by simp [hrest, Except.map]⟩
  · rw [if_neg hrest]
    refine ⟨_, _, f [_], by rw [word_run], ?_, hf.keyword_eq _, hf.keyValues_eq _⟩
    simp [hrest, bind_run, andThen, Except.map, Word.unquote]

/-- Without variables the text of a pair is known up to the number of its blanks. -/
theorem TakesRest.countP_eq (h : TakesRest s k r cx) (h' : TakesRest s k r' cx) (hr : r ≠ [])
    (he : isBlank cx.escape = false) (hcx : cx.scope = none ∨ r' = []) :
    r' ≠ [] ∧ r.countP isBlank = r'.countP isBlank := by
  rw [TakesRest, if_neg hr] at h
  obtain ⟨v, q, st, hword, hstep, -, hpairs⟩ := h
  rw [TakesRest] at h'
  by_cases hr' : r' = []
  · rw [if_pos hr'] at h'
    obtain ⟨fault, hfault⟩ := h'
    rw [hstep] at hfault
    cases hfault
  · rw [if_neg hr'] at h'
    obtain ⟨v', q', st', hword', hstep', -, hpairs'⟩ := h'
    have hscope : cx.scope = none := hcx.resolve_right hr'
    rw [hstep] at hstep'
    cases hstep'
    rw [hpairs] at hpairs'
    obtain ⟨⟨-, rfl, -, -⟩, -⟩ := by simpa using hpairs'
    have hvalue : ∀ t w p, (word .everywhere t cx).result = .ok (w, p) →
        w.countP isBlank = t.countP isBlank := by
      intro t w p ht
      rw [word_run, filling, hscope] at ht
      cases ht
      exact Word.countP_valueFrom he none t
    exact ⟨hr', (hvalue r v q hword).symm.trans (hvalue r' v q' hword')⟩

/-- **The value of a pair without `=`** is what follows the key exactly if no blank is inside the
key.  The first word `k` of ENV and LABEL, quotes and escape characters respected, is the key if it
has no `=` outside quotes, and `u` follows it.

1. The instruction always takes what follows the first blank of its text for the value.
2. That is `u` without blanks around it if the key has no blank but at its end.
3. Otherwise the instruction is not what `u` makes it: it is read where nothing follows the key, and
   elsewhere it has another value, seen where there are no variables. -/
theorem takesRest_iff {escape : Char} (hs : s.keyword = .env ∨ s.keyword = .label)
    (hk : Word.split escape s.text = k :: ws) (hm : Word.cut? escape '=' k = none) :
    ∃ u, s.text.trimStart = k ++ u ∧ (∀ c ∈ u.head?, isBlank c = true) ∧
      ∀ cx : Context, cx.escape = escape →
        TakesRest s k (Text.firstWord s.text).2 cx ∧
          ((∀ c ∈ k.trimEnd, isBlank c = false) → TakesRest s k u.trim cx) ∧
          (isBlank escape = false → cx.scope = none ∨ u.trim = [] → TakesRest s k u.trim cx →
            ∀ c ∈ k.trimEnd, isBlank c = false) := by
  obtain ⟨u, shelter, htext, -, -, -, hu⟩ := Word.of_split_cons hk
  have hhead : ∀ c ∈ u.head?, isBlank c = true := by
    rcases hu with ⟨rfl, -⟩ | ⟨d, v, rfl, -, hd, -⟩
    · rintro c ⟨⟩
    · rintro c ⟨⟩
      exact hd
  refine ⟨u, htext, hhead, ?_⟩
  rintro cx rfl
  have htakes := takesRest_firstWord hs hk hm
  refine ⟨htakes, fun hblankless => ?_, fun he hcx hrest => ?_⟩
  · rwa [Text.firstWord_of_blankless htext hhead hblankless] at htakes
  · by_contra hnot
    push Not at hnot
    obtain ⟨c, hc, hblank⟩ := hnot
    obtain ⟨z, hsnd, hleft, -, hz⟩ :=
      Text.firstWord_of_blank htext hhead ⟨c, hc, Bool.not_eq_false _ ▸ hblank⟩
    obtain ⟨hne, heq⟩ := htakes.countP_eq hrest (by simp [hsnd, hleft]) he hcx
    -- the gap before `u` is in what the instruction takes, and not in `u`
    rcases hz with ⟨hnil, -⟩ | ⟨gap, hgap, hblanks, rfl, -⟩
    · exact hne hnil
    · have hcount : 0 < gap.countP isBlank := by
        obtain ⟨d, gap, rfl⟩ := List.exists_cons_of_ne_nil hgap
        exact List.countP_pos_iff.mpr ⟨d, List.mem_cons_self, hblanks d List.mem_cons_self⟩
      rw [hsnd, List.countP_append, List.countP_append] at heq
      omega

/-- The second half of a key in quotes is read once more, with the text behind it. -/
theorem takesRest_iff_quotedKey :
    (instruction (.ofWords .env "\"a b\" c".toList (.single 2) [])
      ⟨'\\', none, [none], false⟩).result =
        .ok (.step (.env [⟨"a b".toList, "b c".toList, .unquoted, false⟩])) ∧
      TakesRest (.ofWords .env "\"a b\" c".toList (.single 2) []) "\"a b\"".toList "b\" c".toList
        ⟨'\\', none, [none], false⟩ ∧
      ¬ TakesRest (.ofWords .env "\"a b\" c".toList (.single 2) []) "\"a b\"".toList "c".toList
        ⟨'\\', none, [none], false⟩ := by
  have hfirst : Word.split '\\' (Statement.ofWords .env "\"a b\" c".toList (.single 2) []).text =
      ["\"a b\"".toList, "c".toList] := by
    decide
  obtain ⟨u, htext, -, h⟩ := takesRest_iff (.inl rfl) hfirst (by decide)
  obtain ⟨htakes, -, honly⟩ := h ⟨'\\', none, [none], false⟩ rfl
  have hu : u = " c".toList := (List.append_cancel_left (htext.symm.trans (by decide))).trans rfl
  rw [hu] at honly
  refine ⟨by decide +kernel, htakes, fun hrest => ?_⟩
  have hblankless := honly (by decide) (.inl rfl) hrest ' ' (by decide)
  exact absurd hblankless (by decide)

end Grammar

end Containerfile
