import Containerfile.Proofs.Grammar.RestOfLine
import Containerfile.Proofs.Grammar.Yields
import Containerfile.Proofs.Word.Printed

/-! # Pairs printed with equals signs

A pair of ENV or LABEL is printed as its key, an equals sign and its value.  The value is printed so
that it is read back.  The key is printed in the same way, but not every character that means
something in a key does in a value: an equals sign outside quotes ends a key.  So a pair is read
back exactly if its key is printed without one there (`KeyValue.pair_render`,
`KeyValue.hidesEquals_of_pair`).

Main statement: `Grammar.pairs_render`. -/
namespace Containerfile

/-! ## Canonical contexts -/

/-- A context whose escape character is that of printed text, also for its variables. -/
structure Context.Canonical (cx : Context) : Prop where
  escape : cx.escape = defaultEscape
  scope : ∀ scope ∈ cx.scope, scope.escape = defaultEscape

/-- A context without variables. -/
def Context.bare : Context := ⟨defaultEscape, none, [], false⟩

theorem Context.canonical_bare : Context.bare.Canonical := ⟨rfl, by rintro scope ⟨⟩⟩

variable {s : Statement} {cx : Context} {p p' : KeyValue} {ps ps' : List KeyValue}

theorem Grammar.word_quoted (hcx : cx.Canonical) (q : Quoting) (v : Text) :
    word .everywhere (quoteValue q v) cx = ⟨.ok (v, q.written v), []⟩ :=
  word_spells (spells_quoteValue q v) hcx.escape hcx.scope .everywhere

/-! ## What is behind a name -/

section Name

variable {name : Text} (hhead : ∀ c ∈ name.head?, isBlank c = false)
include hhead

theorem head?_of_name (t : Text) : ∀ c ∈ (name ++ '=' :: t).head?, isBlank c = false := by
  intro c hc
  cases name with
  | nil =>
    cases hc
    decide
  | cons d name => exact hhead c hc

/-- A name, an equals sign and a printed value are a word. -/
theorem whole_of_name (hname : Word.Passes defaultEscape .bare name .bare) (q : Quoting)
    (v : Text) :
    Word.Whole defaultEscape (name ++ '=' :: quoteValue q v) :=
  ⟨by simp, head?_of_name hhead _, hname.append ⟨by decide, passes_quoteValue q v⟩⟩

theorem trimmed_of_name (q : Quoting) (v : Text) :
    Text.Trimmed (name ++ '=' :: quoteValue q v) := by
  constructor
  · exact head?_of_name hhead _
  · intro c hc
    rw [List.getLast?_append_of_ne_nil _ (List.cons_ne_nil _ _)] at hc
    cases hv : quoteValue q v with
    | nil =>
      rw [hv] at hc
      cases hc
      decide
    | cons d w =>
      rw [hv, List.getLast?_cons_cons, ← hv] at hc
      exact (trimmed_quoteValue q v).2 c hc

end Name

/-! ## Pairs -/

namespace KeyValue

theorem render_of_hasEquals (h : p.hasEquals = true) :
    p.render = quoteValue .unquoted p.key ++ '=' :: quoteValue p.quoting p.value := by
  rw [render, if_pos h]

theorem whole_render (h : p.hasEquals = true) : Word.Whole defaultEscape p.render := by
  rw [render_of_hasEquals h]
  exact whole_of_name (trimmed_quoteValue _ _).1 (passes_quoteValue _ _) _ _

theorem trimmed_render (h : p.hasEquals = true) : Text.Trimmed p.render := by
  rw [render_of_hasEquals h]
  exact trimmed_of_name (trimmed_quoteValue _ _).1 _ _

/-- A printed pair is cut, at the right place or inside its key. -/
theorem cut?_render (h : p.hasEquals = true) :
    (HidesEquals p.key ∧ Word.cut? defaultEscape '=' p.render =
        some (quoteValue .unquoted p.key, quoteValue p.quoting p.value)) ∨
      (¬ HidesEquals p.key ∧ ∃ name raw, Word.cut? defaultEscape '=' p.render = some (name, raw) ∧
        Word.value defaultEscape name ≠ p.key) := by
  rw [render_of_hasEquals h]
  by_cases hkey : HidesEquals p.key
  · exact .inl ⟨hkey, Word.cut?_of_name (passes_quoteValue _ _) (cut?_quoteValue hkey)⟩
  · exact .inr ⟨hkey, cut?_quoteValue_of_not hkey _⟩

/-- **A printed pair is read back**, if the equals signs of its key are in quotes. -/
theorem pair_render (hcx : cx.Canonical) (h : p.hasEquals = true) (hne : p.key ≠ [])
    (hkey : HidesEquals p.key) :
    (Grammar.pair s p.render cx).result = .ok { p with quoting := p.quoting.written p.value } := by
  have hcut : Word.cut? defaultEscape '=' p.render =
      some (quoteValue .unquoted p.key, quoteValue p.quoting p.value) :=
    (cut?_render h).elim And.right fun hnot => absurd hkey hnot.1
  rw [Grammar.pair, Grammar.bind_of_ok (Grammar.context_run cx), hcx.escape, hcut]
  dsimp only
  rw [value_quoteValue, if_neg (by simpa using hne),
    Grammar.bind_of_ok (Grammar.word_quoted hcx _ _), ← h]
  rfl

/-- **And only then** is its key read back. -/
theorem hidesEquals_of_pair (hcx : cx.escape = defaultEscape) (h : p.hasEquals = true)
    (hread : (Grammar.pair s p.render cx).result = .ok p') (hkey : p'.key = p.key) :
    HidesEquals p.key := by
  rcases cut?_render h with ⟨hhides, -⟩ | ⟨-, name, raw, hcut, hne⟩
  · exact hhides
  · rw [Grammar.pair, Grammar.bind_of_ok (Grammar.context_run cx), hcx, hcut] at hread
    dsimp only at hread
    split at hread
    · cases hread
    · obtain ⟨w, -, hread⟩ := Grammar.ok_of_bind hread
      cases hread
      exact absurd hkey hne

end KeyValue

/-! ## What is read -/

/-- The first pair has an equals sign exactly if all have one, and then they have keys too. -/
def KeyValue.Formed (ps : List KeyValue) : Prop :=
  (∃ p, ps = [p] ∧ p.hasEquals = false) ∨
    (ps ≠ [] ∧ ∀ p ∈ ps, p.hasEquals = true ∧ p.key ≠ [])

theorem KeyValue.Formed.ne_nil (h : KeyValue.Formed ps) : ps ≠ [] := by
  rcases h with ⟨p, rfl, -⟩ | ⟨hne, -⟩
  · exact List.cons_ne_nil p []
  · exact hne

namespace Grammar

theorem yields_formed_pair (w : Text) :
    Yields cx (fun p => p.hasEquals = true ∧ p.key ≠ []) (pair s w) := by
  refine yields_after fun d => ?_
  cases Word.cut? d.escape '=' w with
  | none => exact yields_malformed s _
  | some c =>
    dsimp only
    split
    · exact yields_malformed s _
    · rename_i hkey
      exact yields_after fun _ => yields_pure ⟨rfl, by simpa using hkey⟩

/-- Pairs are read from the words of a text, or there is one pair of the first word and
the rest of the line. -/
theorem of_pairs (h : (pairs s cx).result = .ok ps) :
    ∃ k ws, Word.split cx.escape s.text = k :: ws ∧
      ((Word.cut? cx.escape '=' k = none ∧ ∃ p, ps = [p] ∧ (restOfLine s k cx).result = .ok p) ∨
        ((Word.cut? cx.escape '=' k).isSome = true ∧
          (((k :: ws).mapM' (pair s)) cx).result = .ok ps)) := by
  cases hsplit : Word.split cx.escape s.text with
  | nil =>
    rw [pairs, bind_of_ok (rawWords_run s.text cx), hsplit] at h
    cases h
  | cons k ws =>
    refine ⟨k, ws, rfl, ?_⟩
    rw [pairs_of_split hsplit] at h
    cases hcut : Word.cut? cx.escape '=' k with
    | none =>
      rw [hcut, Option.isNone_none, if_pos rfl] at h
      cases hp : (restOfLine s k cx).result with
      | error e =>
        rw [hp] at h
        cases h
      | ok p =>
        rw [hp] at h
        cases h
        exact .inl ⟨rfl, p, rfl, rfl⟩
    | some c =>
      rw [hcut, Option.isNone_some, if_neg Bool.false_ne_true] at h
      exact .inr ⟨rfl, h⟩

theorem hasEquals_of_restOfLine {k : Text} (h : (restOfLine s k cx).result = .ok p) :
    p.hasEquals = false := by
  rw [restOfLine] at h
  dsimp only at h
  split at h
  · cases h
  · obtain ⟨_, -, h⟩ := ok_of_bind h
    obtain ⟨_, -, h⟩ := ok_of_bind h
    cases h
    rfl

theorem formed_of_pairs (h : (pairs s cx).result = .ok ps) : KeyValue.Formed ps := by
  obtain ⟨k, ws, -, ⟨-, p, rfl, hp⟩ | ⟨-, hps⟩⟩ := of_pairs h
  · exact .inl ⟨p, rfl, hasEquals_of_restOfLine hp⟩
  · refine .inr ⟨?_, ?_⟩
    · rintro rfl
      have hlength := (mapM'_eq_ok_iff.mp hps).length_eq
      simp at hlength
    · exact yields_mapM' (fun w _ => yields_formed_pair w) ps hps

/-- What is read of the members of a list and looks like them. -/
theorem exists_of_forall₂ {α β γ : Type} {r : α → β → Prop} {f : α → γ} {g : β → γ} {l : List α}
    {bs : List β} (h : List.Forall₂ r l bs) (hmap : bs.map g = l.map f) :
    ∀ a ∈ l, ∃ b, r a b ∧ g b = f a := by
  induction h with
  | nil => simp
  | cons hr _ ih =>
    obtain ⟨hhead, htail⟩ := List.cons.inj hmap
    exact List.forall_mem_cons.mpr ⟨⟨_, hr, hhead⟩, ih htail⟩

/-- **Printed pairs with equals signs are read back** in every context if the equals signs of their
keys are printed in quotes, and only then in the context without variables. -/
theorem pairs_render (hne : ps ≠ []) (hps : ∀ p ∈ ps, p.hasEquals = true ∧ p.key ≠ [])
    (hs : s.text = Text.join [' '] (ps.map KeyValue.render)) :
    ((∀ p ∈ ps, HidesEquals p.key) → ∀ cx : Context, cx.Canonical →
        (pairs s cx).result =
          .ok (ps.map fun p => { p with quoting := p.quoting.written p.value })) ∧
      (∀ ps', (pairs s .bare).result = .ok ps' → ps'.map KeyValue.key = ps.map KeyValue.key →
        ∀ p ∈ ps, HidesEquals p.key) := by
  obtain ⟨p, others, hcons⟩ := List.exists_cons_of_ne_nil hne
  have hsplit : Word.split defaultEscape s.text = p.render :: others.map KeyValue.render := by
    rw [hs, hcons, List.map_cons]
    refine Word.split_join (by decide) fun w hw => ?_
    rw [← List.map_cons, ← hcons] at hw
    obtain ⟨q, hq, rfl⟩ := List.mem_map.mp hw
    exact KeyValue.whole_render (hps q hq).1
  -- a printed pair is cut in any case, so the pairs are read one by one
  have hread : ∀ cx : Context, cx.escape = defaultEscape →
      (pairs s cx).result = (((ps.map KeyValue.render).mapM' (pair s)) cx).result := by
    intro cx hcx
    have hcut : (Word.cut? defaultEscape '=' p.render).isNone = false := by
      rcases KeyValue.cut?_render (hps p (by simp [hcons])).1 with ⟨-, h⟩ | ⟨-, _, _, h, -⟩ <;>
        rw [h] <;> rfl
    rw [← hcx] at hsplit hcut
    rw [pairs_of_split hsplit, hcut, if_neg Bool.false_ne_true, hcons, List.map_cons]
  constructor
  · intro hkeys cx hcx
    rw [hread cx hcx.escape, mapM'_eq_ok_iff, List.forall₂_map_left_iff, List.forall₂_map_right_iff,
      List.forall₂_same]
    exact fun q hq => KeyValue.pair_render hcx (hps q hq).1 (hps q hq).2 (hkeys q hq)
  · intro ps' h hkeys q hq
    rw [hread .bare rfl, mapM'_eq_ok_iff, List.forall₂_map_left_iff] at h
    obtain ⟨p', hp', hkey⟩ := exists_of_forall₂ h hkeys q hq
    exact KeyValue.hidesEquals_of_pair rfl (hps q hq).1 hp' hkey

end Grammar

end Containerfile
